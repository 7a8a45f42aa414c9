import StrixAlloy.FiniteLedger.Operations

/-!
# A process that stops inside `complete`

`complete` writes two files: the outcome, and for a late one the latch. Here each of its file-system
steps is a step of the process, which may stop after any of them; a write may also fail, and its
exception leaves `complete`. A file is empty or cut off between its creation and its last byte. The lock
is held from the first step of an operation to its end, and is free again when the process stops.

The outcome of a late operation stays refused when the process comes as far as to create the latch's
file (`late_outcome_refused`). A process that stops between the two files leaves a directory in which
nothing says that the outcome was late.
-/

namespace StrixAlloy.FiniteLedger

open Checked Runs

variable {T : Type}

/-- How far the process is in `complete`: nowhere; the outcome's file is created; it is written, and the
clock reads `at`; the ledger failed in memory; the latch's file is created. -/
inductive Progress (T : Type) where
  | idle
  | outcome (r : Reservation T) (o : Outcome)
  | judging (r : Reservation T) (committed_at : T)
  | latching (r : Reservation T) (observed_at : T)
  | latchOpen (r : Reservation T) (observed_at : T)

/-- The directory and the process that has it open, by its `_transport_failed`. `reserved` are the
reservations that succeeded, and `committed` the reservations whose outcomes were written, with the times
at which they were. -/
structure Process (T : Type) where
  files : List (File T)
  live : Option Bool
  progress : Progress T
  reserved : List (Reservation T)
  committed : List (Reservation T × T)

/-- What a process does next. -/
inductive Action (T : Type) where
  | reserve (dir : Scandir T) (kind : String) (ordinal : ℤ) (body : List UInt8) (now : T)
  | failTransport (dir : Scandir T) (slot : Slot) (code : String) (observed_at : T)
  /-- `complete` up to the creation of the outcome's file. -/
  | complete (dir : Scandir T) (slot : Slot) (result : Json)
  /-- The outcome is written, at `committed_at`. -/
  | writeOutcome (committed_at : T)
  | judge
  | createLatch
  | writeLatch
  /-- A write, or its `fsync`, raises. -/
  | fail
  /-- The process stops, or closes the ledger. -/
  | stop
  | reopen (dir : Scandir T) (header : Header T)

/-- The text of a file is complete. -/
def writeText (files : List (File T)) (name : Name) (record : Record T) : List (File T) :=
  files.map fun f => if f.name = name then ⟨name, some record⟩ else f

variable [LinearOrder T] [Zero T] [Add T]

namespace Ledger

variable (l : Ledger T)

/-- The process that created the directory. -/
def start : Process T := ⟨l.created, some false, .idle, [], []⟩

/-- A step outside `complete`. -/
def begin (p : Process T) (failed : Bool) : Action T → Process T
  | .reserve dir kind ordinal body now =>
    match l.reserve dir failed p.files kind ordinal body now with
    | .error _ => p
    | .ok (row, files) => { p with files := files, reserved := p.reserved ++ [row] }
  | .failTransport dir slot code observed_at =>
    match l.checkFailure dir failed p.files slot code observed_at with
    | .error _ => p
    | .ok r =>
      match l.exclusive p.files .latch (.latch (l.latchFor r observed_at)) recordLimit with
      | .error _ => { p with live := some true }
      | .ok files => { p with files := files, live := some true }
  | .complete dir slot result =>
    match l.outcomeFor dir failed p.files slot result with
    | .error _ => p
    | .ok (r, o) =>
      match l.exclusive p.files (.outcome slot) (.outcome o) (l.summaryLimit slot.kind) with
      | .error _ => p
      | .ok _ => { p with files := p.files ++ [⟨.outcome slot, none⟩], progress := .outcome r o }
  | _ => p

/-- A step inside `complete`. -/
def proceed (p : Process T) : Progress T → Action T → Process T
  | .outcome r o, .writeOutcome committed_at =>
    { p with
        files := writeText p.files (.outcome o.slot) (.outcome o)
        progress := .judging r committed_at
        committed := p.committed ++ [(r, committed_at)] }
  | .judging r committed_at, .judge =>
    if r.deadline ≤ committed_at then
      { p with live := some true, progress := .latching r committed_at }
    else { p with progress := .idle }
  | .latching r observed_at, .createLatch =>
    match l.exclusive p.files .latch (.latch (l.latchFor r observed_at)) recordLimit with
    | .error _ => { p with progress := .idle }
    | .ok _ => { p with files := p.files ++ [⟨.latch, none⟩], progress := .latchOpen r observed_at }
  | .latchOpen r observed_at, .writeLatch =>
    { p with
        files := writeText p.files .latch (.latch (l.latchFor r observed_at))
        progress := .idle }
  | .outcome .., .fail | .judging .., .fail | .latching .., .fail | .latchOpen .., .fail => { p with progress := .idle }
  | _, _ => p

/-- One step. Without a process the only one is to open the directory. -/
def advance (p : Process T) (a : Action T) : Process T :=
  match p.live, p.progress, a with
  | some _, _, .stop => { p with live := none, progress := .idle }
  | some failed, .idle, a => l.begin p failed a
  | some _, progress, a => l.proceed p progress a
  | none, _, .reopen dir header =>
    match l.reopen dir p.files header with
    | .error _ => p
    | .ok _ => { p with live := some false }
  | none, _, _ => p

/-- The step is none that loses a late outcome: between the outcome's last byte and the creation of the
latch's file, the process neither stops nor fails to write, and the latch's text is within its limit. -/
def keeps (p : Process T) (a : Action T) : Bool :=
  match p.progress, a with
  | .judging r committed_at, .stop | .judging r committed_at, .fail => committed_at < r.deadline
  | .latching .., .stop | .latching .., .fail => false
  | .latching r observed_at, .createLatch =>
    (l.encoded (.latch (l.latchFor r observed_at))).any fun data => data.length ≤ recordLimit
  | _, _ => true

/-! ## A latch that was begun -/

/-- The directory has the latch's file, whatever its text is. -/
def Latched (files : List (File T)) : Prop := ∃ f ∈ files, f.name = .latch

-- Makes the equations once, for all of the proofs.
attribute [local simp] Ledger.begin Ledger.proceed Ledger.advance keeps in
theorem scanEntry_late_latch {found found' : Found T} {f : File T} (h : l.scanEntry found f = .ok found')
    (hf : f.name = .latch ∨ found.late_latch.isSome) : found'.late_latch.isSome := by
  unfold scanEntry at h
  split at h <;> rename_i hname <;> simp only [bind_eq_ok, pure_eq_ok, throw_eq_ok] at h
  · obtain rfl := h
    exact hf.resolve_left (by simp [hname])
  · obtain rfl := h
    exact hf.resolve_left (by simp [hname])
  · obtain ⟨row, -, rfl⟩ := h
    rfl
  · obtain ⟨-, -, row, -, rfl⟩ := h
    exact hf.resolve_left (by simp [hname])
  · obtain ⟨-, -, row, -, rfl⟩ := h
    exact hf.resolve_left (by simp [hname])

/-- A loop that finds the latch's file, or had found it, ends with a latch or raises. -/
theorem scanEntries_late_latch {fs : List (File T)} {count : ℕ} {found found' : Found T}
    (h : l.scanEntries count found fs = .ok found')
    (hf : Latched fs ∨ found.late_latch.isSome) : found'.late_latch.isSome := by
  induction fs generalizing count found with
  | nil =>
    obtain rfl : found = found' := Except.ok.inj h
    exact hf.resolve_left (by simp [Latched])
  | cons f fs ih =>
    unfold scanEntries at h
    simp only [bind_eq_ok, require_eq_ok] at h
    obtain ⟨-, -, next, hnext, hrest⟩ := h
    rcases hf with ⟨g, hg, hname⟩ | hs
    · rcases List.mem_cons.1 hg with rfl | hg
      · exact ih hrest (.inr (l.scanEntry_late_latch hnext (.inl hname)))
      · exact ih hrest (.inl ⟨g, hg, hname⟩)
    · exact ih hrest (.inr (l.scanEntry_late_latch hnext (.inr hs)))

/-- A scan of a directory with the latch's file raises or finds a latch. -/
theorem scan_late_latch {entries : List (File T)} {found : Found T} (h : l.scan entries = .ok found)
    (hf : Latched entries) : found.late_latch.isSome := by
  unfold scan at h
  simp only [bind_eq_ok, require_eq_ok, pure_eq_ok] at h
  obtain ⟨found', hloop, -, -, -, -, -, -, -, -, rfl⟩ := h
  exact l.scanEntries_late_latch hloop (.inl hf)

variable {files : List (File T)}

section

omit [LinearOrder T] [Zero T] [Add T]

theorem Latched.entries (h : Latched files) (dir : Scandir T) : Latched (dir.entries files) := by
  obtain ⟨f, hf, hname⟩ := h
  exact ⟨f, (dir.perm files).mem_iff.2 hf, hname⟩

theorem Latched.append (h : Latched files) (more : List (File T)) : Latched (files ++ more) := by
  obtain ⟨f, hf, hname⟩ := h
  exact ⟨f, List.mem_append_left _ hf, hname⟩

theorem Latched.writeText (h : Latched files) (name : Name) (record : Record T) :
    Latched (writeText files name record) := by
  obtain ⟨f, hf, hname⟩ := h
  refine ⟨_, List.mem_map.2 ⟨f, hf, rfl⟩, ?_⟩
  split_ifs with heq
  · exact heq ▸ hname
  · exact hname

end

variable {l} {p : Process T}

theorem Latched.scanLive_ne_ok (h : Latched files) {dir : Scandir T} {failed : Bool} {found : Found T} :
    l.scanLive dir failed files ≠ .ok found := by
  intro hok
  unfold scanLive at hok
  simp only [bind_eq_ok, require_eq_ok, pure_eq_ok] at hok
  obtain ⟨-, -, found', hscan, -, hnone, -⟩ := hok
  have hsome := l.scan_late_latch hscan (h.entries dir)
  rw [Option.isNone_iff_eq_none.1 hnone] at hsome
  cases hsome

/-- No reservation succeeds in a directory with the latch's file. -/
theorem Latched.reserve_ne_ok (h : Latched files) {dir : Scandir T} {failed : Bool} {kind : String} {ordinal : ℤ}
    {body : List UInt8} {now : T} {written : Reservation T × List (File T)} :
    l.reserve dir failed files kind ordinal body now ≠ .ok written := by
  intro hok
  unfold reserve at hok
  simp only [bind_eq_ok] at hok
  obtain ⟨found, hscan, -⟩ := hok
  exact h.scanLive_ne_ok hscan

/-- A directory with the latch's file is not opened again, whatever run it is opened for. -/
theorem Latched.reopen_ne_ok (h : Latched files) {dir : Scandir T} {header : Header T} {found : Found T} :
    l.reopen dir files header ≠ .ok found := by
  intro hok
  unfold reopen at hok
  simp only [bind_eq_ok, require_eq_ok, pure_eq_ok] at hok
  obtain ⟨-, -, found', hscan, -, hnone, -⟩ := hok
  have hsome := Ledger.scan_late_latch _ hscan (h.entries dir)
  rw [Option.isNone_iff_eq_none.1 hnone] at hsome
  cases hsome

omit [LinearOrder T] [Zero T] [Add T] in
/-- A record whose text is within its limit is written unless its file exists. -/
theorem exists_of_exclusive_error {name : Name} {record : Record T} {maximum : ℕ} {e : String}
    (hfits : (l.encoded record).any fun data => decide (data.length ≤ maximum))
    (h : l.exclusive files name record maximum = .error e) : ∃ f ∈ files, f.name = name := by
  by_contra hnot
  push Not at hnot
  cases hdata : l.encoded record with
  | none => simp [hdata] at hfits
  | some data =>
    have hlen : data.length ≤ maximum := by simpa [hdata] using hfits
    have hok : l.exclusive files name record maximum = .ok (files ++ [⟨name, some record⟩]) := by
      unfold exclusive
      simp only [bind_eq_ok, orThrow_eq_ok, require_eq_ok, pure_eq_ok]
      exact ⟨data, hdata, (), hlen, (), hnot, trivial⟩
    rw [hok] at h
    cases h

/-! ## Late outcomes -/

/-- An outcome was written at or after its deadline. -/
def Late (p : Process T) : Prop := ∃ c ∈ p.committed, c.1.deadline ≤ c.2

/-- The process is between the last byte of a late outcome and the creation of the latch's file. -/
def Unlatched (p : Process T) : Prop :=
  (∃ r t, p.progress = .judging r t ∧ r.deadline ≤ t) ∨ ∃ r t, p.progress = .latching r t

/-- A late outcome is known to the directory, or to the process that writes it. -/
def Guarded (p : Process T) : Prop := Late p → Latched p.files ∨ (p.live.isSome ∧ Unlatched p)

omit [Zero T] [Add T] in
theorem not_unlatched_of_idle (h : p.progress = .idle) : ¬ Unlatched p := by
  simp [Unlatched, h]

/-- Once a directory is latched, it stays so. -/
theorem Latched.begin (h : Latched p.files) (failed : Bool) (a : Action T) :
    Latched (l.begin p failed a).files := by
  cases a with
  | reserve dir kind ordinal body now =>
    simp only [Ledger.begin]
    cases hr : l.reserve dir failed p.files kind ordinal body now with
    | error => exact h
    | ok => exact absurd hr h.reserve_ne_ok
  | failTransport =>
    simp only [Ledger.begin]
    split
    · exact h
    · split
      · exact h
      · next hwrite =>
        obtain ⟨-, rfl⟩ := exclusive_ok hwrite
        exact h.append _
  | complete =>
    simp only [Ledger.begin]
    split
    · exact h
    · split
      · exact h
      · exact h.append _
  | _ => exact h

theorem begin_committed (failed : Bool) (a : Action T) : (l.begin p failed a).committed = p.committed := by
  cases a <;> simp only [Ledger.begin] <;> (repeat' split) <;> rfl

/-- No operation reserves in a directory that is latched. -/
theorem Latched.begin_reserved (h : Latched p.files) (failed : Bool) (a : Action T) :
    (l.begin p failed a).reserved = p.reserved := by
  cases a with
  | reserve dir kind ordinal body now =>
    simp only [Ledger.begin]
    cases hr : l.reserve dir failed p.files kind ordinal body now with
    | error => rfl
    | ok => exact absurd hr h.reserve_ne_ok
  | _ => simp only [Ledger.begin] <;> (repeat' split) <;> rfl

omit [Zero T] [Add T] in
theorem Latched.proceed (h : Latched p.files) (progress : Progress T) (a : Action T) :
    Latched (l.proceed p progress a).files := by
  unfold Ledger.proceed
  split
  · exact h.writeText _ _
  · split_ifs <;> exact h
  · split
    · exact h
    · exact h.append _
  · exact h.writeText _ _
  all_goals exact h

omit [Zero T] [Add T] in
/-- What a step inside `complete` does to a late outcome that only the process knows. -/
theorem Guarded.proceed (h : Guarded p) (hlive : p.live.isSome) {a : Action T}
    (hkeeps : l.keeps p a) (hstop : a ≠ .stop) : Guarded (l.proceed p p.progress a) := by
  intro hlate
  by_cases hlatched : Latched p.files
  · exact .inl (hlatched.proceed _ _)
  -- the late outcome is the one that the process is about
  have hguard : Late p → Unlatched p := fun hp => ((h hp).resolve_left hlatched).2
  unfold Ledger.proceed at hlate ⊢
  split at hlate <;> rename_i hprogress
  · next r o committed_at =>
    right
    refine ⟨hlive, .inl ⟨r, committed_at, rfl, ?_⟩⟩
    obtain ⟨c, hc, hdeadline⟩ := hlate
    rcases List.mem_append.1 hc with hc | hc
    · have hun := hguard ⟨c, hc, hdeadline⟩
      simp [Unlatched, hprogress] at hun
    · rw [List.mem_singleton.1 hc] at hdeadline
      exact hdeadline
  · next r committed_at =>
    by_cases hdeadline : r.deadline ≤ committed_at
    · rw [if_pos hdeadline]
      exact .inr ⟨rfl, .inr ⟨r, committed_at, rfl⟩⟩
    · rw [if_neg hdeadline] at hlate
      have hun := hguard hlate
      simp only [Unlatched, hprogress] at hun
      rcases hun with ⟨r', t, heq, hle⟩ | ⟨r', t, heq⟩
      · obtain ⟨rfl, rfl⟩ := Progress.judging.inj heq
        exact absurd hle hdeadline
      · cases heq
  · next r observed_at =>
    simp only [keeps, hprogress] at hkeeps
    left
    split
    · next e hwrite => exact exists_of_exclusive_error hkeeps hwrite
    · exact ⟨⟨.latch, none⟩, by simp, rfl⟩
  · have hun := hguard hlate
    simp [Unlatched, hprogress] at hun
  · have hun := hguard hlate
    simp [Unlatched, hprogress] at hun
  · rcases hguard hlate with ⟨r', t, heq, hle⟩ | ⟨r', t, heq⟩
    · simp only [keeps, heq, decide_eq_true_eq] at hkeeps
      exact absurd hkeeps hle.not_gt
    · simp [hprogress] at heq
  · simp [keeps, hprogress] at hkeeps
  · have hun := hguard hlate
    simp [Unlatched, hprogress] at hun
  · exact .inr ⟨hlive, hguard hlate⟩

/-- A step that keeps late outcomes known keeps them known. -/
theorem Guarded.advance (h : Guarded p) {a : Action T} (hkeeps : l.keeps p a) :
    Guarded (l.advance p a) := by
  unfold Ledger.advance
  split
  · -- a process that stops where it is not between the two files
    intro hlate
    left
    rcases h hlate with hlatched | ⟨-, ⟨r, t, hprogress, hle⟩ | ⟨r, t, hprogress⟩⟩
    · exact hlatched
    · simp only [keeps, hprogress, decide_eq_true_eq] at hkeeps
      exact absurd hkeeps hle.not_gt
    · simp [keeps, hprogress] at hkeeps
  · next hidle _ =>
    intro hlate
    left
    unfold Late at hlate
    rw [begin_committed] at hlate
    have hlatched := (h hlate).resolve_right fun hun => not_unlatched_of_idle hidle hun.2
    exact hlatched.begin _ _
  · next hlive hstop _ => exact h.proceed (by simp [hlive]) hkeeps (by simpa using hstop)
  · next hlive =>
    intro hlate
    left
    have hlatched : Latched p.files := by
      split at hlate <;> exact (h hlate).resolve_right (by simp [hlive])
    split <;> exact hlatched
  · exact h

/-- A known late outcome stays known over a run. -/
theorem guarded_run {as : List (Action T)} (h : Runs.Admits l.advance (fun p a => l.keeps p a) l.start as) :
    Guarded (run l.advance l.start as) := by
  refine run_invariant_of (fun _ _ h hkeeps => h.advance hkeeps) ?_ h
  rintro ⟨c, hc, -⟩
  simp [start] at hc

/-- No step reserves while a late outcome is known. -/
theorem Guarded.reserved (h : Guarded p) (hlate : Late p) (a : Action T) :
    (l.advance p a).reserved = p.reserved := by
  unfold Ledger.advance
  split
  · rfl
  · next hidle _ =>
    have hlatched := (h hlate).resolve_right fun hun => not_unlatched_of_idle hidle hun.2
    exact hlatched.begin_reserved _ _
  · unfold Ledger.proceed
    (repeat' split) <;> rfl
  · split <;> rfl
  · rfl

/-- The law of late outcomes. In a run in which no process stops, and no write fails, between the last
byte of a late outcome and the creation of the latch's file, a late outcome is refused for good: no
operation reserves any more, and once the process is gone the directory opens for nobody. -/
theorem late_outcome_refused (l : Ledger T) (as : List (Action T))
    (h : Runs.Admits l.advance (fun p a => l.keeps p a) l.start as) :
    let p := run l.advance l.start as
    (∃ c ∈ p.committed, c.1.deadline ≤ c.2) →
      (∀ a, (l.advance p a).reserved = p.reserved) ∧
      (p.live = none → ∀ dir header found, l.reopen dir p.files header ≠ .ok found) := by
  intro p hlate
  have hguarded : Guarded p := guarded_run h
  refine ⟨hguarded.reserved hlate, fun hgone dir header found => ?_⟩
  have hlatched := (hguarded hlate).resolve_right (by simp [hgone])
  exact hlatched.reopen_ne_ok

end Ledger

/-! ## The second lifecycle -/

/-- The limits and the second lifecycle of the pinned workload, without the bodies of its posts, in a run
that was resumed at 100, with a clock of whole seconds. The digests are those of an empty body and of
the reservation of the first poll at 100. -/
def secondLifecycle : Ledger ℕ where
  limits :=
    { operation_seconds := 60
      post_response_wire_bytes := 8388608
      get_response_wire_bytes := 65536
      generated_text_or_tool_argument_utf8_bytes := 1048576
      post_summary_bytes := 65536
      get_summary_bytes := 4096 }
  request_pool := []
  life :=
    { maximum_post_attempts := 6
      maximum_ready_polls := 240
      lifetime_seconds := 900
      readiness_seconds := 480
      maximum_response_wire_bytes := 66125824
      maximum_client_evidence_bytes := 134217728
      steps := ["chat_arithmetic_readiness", "chat_german", "responses_arithmetic", "responses_german",
        "messages_arithmetic", "messages_german"]
      posts_lt := by decide
      polls_lt := by decide
      base_le := by decide }
  header :=
    { schema := 1
      profile := "ar4k-service-lifecycle-v1"
      workload_sha256 := "30D633A46F3F16433557CFF41E7F01C3A28D75132B875BEE63B8E39A332ACC38"
      lifecycle := 2
      run_id := "second-run"
      resumed_at := 100
      deadline := 1000 }
  sha256 data :=
    if data = [] then "E3B0C44298FC1C149AFBF4C8996FB92427AE41E4649B934CA495991B7852B855"
    else "703C4D8F7469969139EAE038D8C2A41F8D11CD6386D5057D4AA451E68815C54E"
  encoded := Record.ascii fun t => .int t

/-- The entries of a directory in the order in which they were created. -/
def inOrder : Scandir ℕ := ⟨id, fun _ => List.Perm.refl _⟩

/-- The first poll is reserved at 100 and completed at 161, a second after its deadline. -/
def latePoll : List (Action ℕ) :=
  [.reserve inOrder "ready" 1 [] 100,
    .complete inOrder ⟨.ready, 1⟩ (.dict [("success", .bool true)]), .writeOutcome 161]

open Ledger

theorem late_outcome_refused_latched :
    let p := run secondLifecycle.advance secondLifecycle.start
      (latePoll ++ [.judge, .createLatch, .stop])
    (∀ a, (secondLifecycle.advance p a).reserved = p.reserved) ∧
      ∀ dir header found, secondLifecycle.reopen dir p.files header ≠ .ok found := by
  have hrun : check secondLifecycle.advance secondLifecycle.keeps secondLifecycle.start
        (latePoll ++ [.judge, .createLatch, .stop]) ∧
      (∃ c ∈ (run secondLifecycle.advance secondLifecycle.start
        (latePoll ++ [.judge, .createLatch, .stop])).committed, c.1.deadline ≤ c.2) ∧
      (run secondLifecycle.advance secondLifecycle.start
        (latePoll ++ [.judge, .createLatch, .stop])).live = none := by decide +kernel
  obtain ⟨hkeeps, hlate, hgone⟩ := hrun
  have h := late_outcome_refused secondLifecycle _ (admits_of_check hkeeps) hlate
  exact ⟨h.1, h.2 hgone⟩

/-- A process that stops after the outcome's last byte leaves a directory that opens again, in which the
next poll is reserved. -/
theorem late_outcome_reopened :
    let p := run secondLifecycle.advance secondLifecycle.start (latePoll ++ [.stop])
    let p' := run secondLifecycle.advance p
      [.reopen inOrder secondLifecycle.header, .reserve inOrder "ready" 2 [] 170]
    (∃ c ∈ p.committed, c.1.deadline ≤ c.2) ∧ p.live = none ∧ p'.live = some false ∧
      p'.reserved.map Reservation.slot = [⟨.ready, 1⟩, ⟨.ready, 2⟩] := by
  decide +kernel

end StrixAlloy.FiniteLedger
