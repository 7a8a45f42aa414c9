import StrixAlloy.MobileRelay.Agreement

/-!
# Who is authenticated

The loop of `AuthenticateReason` counts the sessions that a username names and that have not ended, and
notes how far the others agree with it (`foldl_see`). So its answer on a published table is `verdict`,
which says who is authenticated and why the others are not.
-/

namespace StrixAlloy.MobileRelay

section Verdict

variable {F : Type} [LinearOrder F] (x : Float64 F) (lib : Library F)

/-- The session has the named instance. -/
def named (inst : List UInt8) (s : Session F) : Bool := bytesOf s.instance_ = inst

/-- And the named service. -/
def serves (inst service : List UInt8) (s : Session F) : Bool := named inst s && bytesOf s.service_id = service

/-- And the presented token. -/
def holds (inst service token : List UInt8) (s : Session F) : Bool := serves inst service s && sameToken lib s token

/-- And it has not ended. -/
def live (inst service token : List UInt8) (now : F) (s : Session F) : Bool :=
  holds lib inst service token s && now < s.expires_at

/-- Who is authenticated: the one session that all parts of the username fit and that has not ended. Else
the reason is that there are several, or the first of instance, service, token and expiry that no session
fits. -/
def verdict (sessions : List (Session F)) (inst service token : List UInt8) (now : F) :
    Except Reason (Session F) :=
  match sessions.filter (live lib inst service token now) with
  | [s] => .ok s
  | _ :: _ :: _ => .error .ambiguous
  | [] =>
    if ¬ sessions.any (named inst) then .error .instance_
    else if ¬ sessions.any (serves inst service) then .error .service
    else if ¬ sessions.any (holds lib inst service token) then .error .token
    else .error .expired

variable {x lib} {inst service token : List UInt8} {now : F}

/-- What the loop has seen. -/
theorem foldl_see (lib : Library F) (inst service token : List UInt8) (now : F) (sessions : List (Session F))
    (seen : Seen F) :
    let after := sessions.foldl (see lib inst service token now) seen
    let found := sessions.filter (live lib inst service token now)
    after.matches_ = seen.matches_ + found.length ∧ after.found = found.getLast?.getD seen.found ∧
      after.inst = (seen.inst || sessions.any (named inst)) ∧
      after.service = (seen.service || sessions.any (serves inst service)) ∧
      after.credential = (seen.credential || sessions.any (holds lib inst service token)) := by
  induction sessions generalizing seen with
  | nil => simp
  | cons s ss ih =>
    obtain ⟨hmatches, hfound, hinst, hservice, hcredential⟩ := ih (see lib inst service token now seen s)
    simp only [List.foldl_cons, List.filter_cons, List.any_cons]
    rw [hmatches, hfound, hinst, hservice, hcredential]
    generalize ss.filter (live lib inst service token now) = found
    by_cases h1 : bytesOf s.instance_ = inst
    · by_cases h2 : bytesOf s.service_id = service
      · by_cases h3 : sameToken lib s token
        · by_cases h4 : now < s.expires_at
          · simp [see, live, holds, serves, named, h1, h2, h3, h4, List.getLast?_cons]
            omega
          · simp [see, live, holds, serves, named, h1, h2, h3, h4]
        · simp [see, live, holds, serves, named, h1, h2, h3]
      · simp [see, live, holds, serves, named, h1, h2]
    · simp [see, live, holds, serves, named, h1]

/-- The answer on a table that was read. -/
theorem authenticateReason_eq {file : Option (List UInt8)} {sessions : List (Session F)} {username : List UInt8}
    {loaded : F} (hload : load x lib file loaded = some sessions)
    (hshape : parseUsername username = some (inst, service, token)) :
    authenticateReason x lib file username loaded now = verdict lib sessions inst service token now := by
  obtain ⟨hmatches, hfound, hinst, hservice, hcredential⟩ := foldl_see lib inst service token now
    sessions { found := emptySession x, matches_ := 0, inst := false, service := false, credential := false }
  rw [authenticateReason, hshape, verdict]
  rw [hload]
  dsimp only
  rw [hmatches, hfound, hinst, hservice, hcredential]
  cases sessions.filter (live lib inst service token now) with
  | nil => simp
  | cons s rest =>
    cases rest with
    | nil => simp
    | cons => simp

end Verdict

/-! ## The two programs together -/

section Together

variable {F : Type} [LinearOrder F] (x : Float64 F) (lib : Library F) (lower : String → String)
  (relay_address : String)

/-- Whatever a registry has published, the relay's reader takes as it is, at every reading of its clock
that is not earlier than those of the registrations, and answers a username of three parts by the verdict
on the published sessions. A username that has not the shape of one it rejects as such. -/
theorem registry_agreement (ops : List (Op F)) (loaded : F)
    (htime : ∀ op ∈ ops, ∀ t, op.time? = some t → t ≤ loaded) :
    let r := Runs.run (step x lower relay_address) (Registry.init x) ops
    (r.poisoned = false → r.sessions = r.published) ∧
      ∀ bytes, r.file = some bytes →
        load x lib (some bytes) loaded = some r.published ∧
          ∀ username now, authenticateReason x lib (some bytes) username loaded now =
            match parseUsername username with
            | none => .error .shape
            | some (inst, service, token) => verdict lib r.published inst service token now := by
  intro r
  have h : Inv x loaded r := inv_run htime
  refine ⟨h.current, fun bytes hbytes => ?_⟩
  have hload : load x lib (some bytes) loaded = some r.published := by
    rw [h.file bytes hbytes]
    exact load_encoded h.published
  refine ⟨hload, fun username now => ?_⟩
  cases hshape : parseUsername username with
  | none =>
    rw [authenticateReason, hshape]
  | some parts =>
    obtain ⟨inst, service, token⟩ := parts
    exact authenticateReason_eq hload hshape

end Together

/-! ## An instance -/

theorem utf8_injective {cs ds : List Char} (h : utf8 cs = utf8 ds) : cs = ds := by
  have hbytes : (String.ofList cs).toByteArray = (String.ofList ds).toByteArray := by
    rw [String.toByteArray_ofList, String.toByteArray_ofList]
    unfold List.utf8Encode
    exact congrArg List.toByteArray h
  exact String.ofList_injective (String.toByteArray_inj.1 hbytes)

/-- A JSON library that reads exactly what is written. -/
noncomputable def exactLibrary (F : Type) (sha256 : List UInt8 → List UInt8) : Library F where
  parse bytes := open Classical in if h : ∃ v : Json, utf8 v.text = bytes then some h.choose else none
  equalFold s t := s = t
  ofInt _ := none
  parseIPv6 _ := none
  sha256 := sha256
  parse_text v _ := by
    have h : ∃ w : Json, utf8 w.text = utf8 v.text := ⟨v, rfl⟩
    rw [dif_pos h]
    exact congrArg some (Json.text_injective (utf8_injective h.choose_spec))

/-- The `repr` of a whole number of seconds. -/
def secondsText (n : ℕ) : FloatText where
  text := Nat.toDigits 10 n ++ ['.', '0']
  chars c hc := by
    rcases List.mem_append.1 hc with hc | hc
    · exact .inl (Nat.isDigit_of_mem_toDigits (by omega) (by omega) hc)
    · simp only [List.mem_cons, List.not_mem_nil, or_false] at hc
      rcases hc with rfl | rfl
      · exact .inr (by decide)
      · exact .inl (by decide)
  point := .inl (by simp)

/-- Whole numbers of seconds below `2^40`, on which floating-point arithmetic is exact up to the greatest. -/
def seconds : Float64 (Fin (2 ^ 40)) where
  add a b := ⟨min (2 ^ 40 - 1) (a.val + b.val), by omega⟩
  zero := 0
  hour := 3600
  day := 86400
  repr a := secondsText a.val
  parse f :=
    if h : Nat.ofDigitChars 10 f.text.dropLast.dropLast 0 < 2 ^ 40 then some ⟨_, h⟩ else none
  add_le_add := by
    intro a b c d hab hcd
    have hab : a.val ≤ b.val := hab
    show min (2 ^ 40 - 1) (a.val + c.val) ≤ min (2 ^ 40 - 1) (b.val + d.val)
    omega
  hour_le_day := by decide
  repr_length a := by
    have hdigits : (Nat.toDigits 10 a.val).length ≤ 13 :=
      (Nat.length_toDigits_le_iff (by omega) (by omega)).2 (by omega)
    show (Nat.toDigits 10 a.val ++ ['.', '0']).length ≤ 24
    rw [List.length_append]
    exact Nat.le_trans (Nat.add_le_add_right hdigits 2) (by decide)
  parse_repr a := by
    have htext : (secondsText a.val).text.dropLast.dropLast = Nat.toDigits 10 a.val := by
      show (Nat.toDigits 10 a.val ++ ['.', '0']).dropLast.dropLast = _
      simp
    have hvalue : Nat.ofDigitChars 10 (secondsText a.val).text.dropLast.dropLast 0 = a.val := by
      rw [htext, Nat.ofDigitChars_ten_toDigits]
    rw [dif_pos (by rw [hvalue]; exact a.isLt)]
    simp only [hvalue]

/-- One registration, of the token that is a single blank. -/
def blankToken : Op (Fin (2 ^ 40)) :=
  .register "00000000000000000000000000000000" "a" "00000000000000000000000000000000"
    "36a9e7f1c95b82ffb99743e0c5c4ce95d83c9a430aac59f84ef3cbfab6145068" (some 60) 0 0 .replaced

/-- The SHA-256 of a single blank. -/
def blankHash (_ : List UInt8) : List UInt8 :=
  [54, 169, 231, 241, 201, 91, 130, 255, 185, 151, 67, 224, 197, 196, 206, 149, 216, 60, 154, 67, 10, 172, 89, 248,
    78, 243, 203, 250, 182, 20, 80, 104]

/-- The username that names the session of `blankToken` and presents its token. -/
def blankUsername : List UInt8 := bytesOf "a:00000000000000000000000000000000: "

theorem registry_agreement_blank :
    let r := Runs.run (step seconds id "10.0.0.1") (Registry.init seconds) [blankToken]
    ∀ bytes, r.file = some bytes →
      load seconds (exactLibrary _ blankHash) (some bytes) 0 = some r.published := by
  intro r bytes hbytes
  have htime : ∀ op ∈ [blankToken], ∀ t, op.time? = some t → t ≤ (0 : Fin (2 ^ 40)) := by
    intro op hop t ht
    rw [List.mem_singleton.1 hop] at ht
    cases ht
    exact le_rfl
  exact ((registry_agreement seconds (exactLibrary _ blankHash) id "10.0.0.1" [blankToken] 0 htime).2 bytes hbytes).1

/-- One unexpired session has the named instance and service and the SHA-256 of the presented token, and
the username is rejected. -/
theorem shape_before_token :
    let r := Runs.run (step seconds id "10.0.0.1") (Registry.init seconds) [blankToken]
    (r.published.filter (live (exactLibrary _ blankHash) (bytesOf "a")
        (bytesOf "00000000000000000000000000000000") [32] 0)).length = 1 ∧
      splitUsername blankUsername = some (bytesOf "a", bytesOf "00000000000000000000000000000000", [32]) ∧
      authenticateReason seconds (exactLibrary _ blankHash) r.file blankUsername 0 0 = .error .shape := by
  refine ⟨by decide +kernel, by decide +kernel, ?_⟩
  · have hshape : parseUsername blankUsername = none := by decide +kernel
    rw [authenticateReason, hshape]

end StrixAlloy.MobileRelay
