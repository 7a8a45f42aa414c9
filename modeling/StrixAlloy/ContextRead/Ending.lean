import StrixAlloy.ContextRead.Policy

/-!
# The policy ends

A query on a table applies the policy to rows of that table, and the policy of a table queries only tables
before it (`rank`). So four applications inside each other are enough, and more change nothing
(`canRead_ends`).
-/

namespace StrixAlloy.ContextRead

open List

variable {α β : Type}

/-! ## Results -/

/-- The evaluation ends with the value. -/
def Yields (x : Eval α) (a : α) : Prop := x.run = some (.ok a)

/-- An evaluation yields one value. -/
theorem Yields.unique {x : Eval α} {a b : α} (ha : Yields x a) (hb : Yields x b) : a = b :=
  Except.ok.inj (Option.some.inj (ha.symm.trans hb))

theorem yields_pure {a b : α} : Yields (pure a) b ↔ a = b := by
  constructor
  · exact fun h => Except.ok.inj (Option.some.inj h)
  · rintro rfl
    rfl

theorem not_yields_throw {a : α} : ¬Yields (throw ()) a := nofun

theorem run_bind_ok {x : Eval α} {f : α → Eval β} {a : α} (h : Yields x a) : (x >>= f).run = (f a).run := by
  rw [ExceptT.run_bind, h]
  rfl

theorem run_bind_error {x : Eval α} {f : α → Eval β} {e : Unit} (h : x.run = some (.error e)) :
    (x >>= f).run = some (.error e) := by
  rw [ExceptT.run_bind, h]
  rfl

theorem run_bind_none {x : Eval α} {f : α → Eval β} (h : x.run = none) : (x >>= f).run = none := by
  rw [ExceptT.run_bind, h]
  rfl

/-- A sequence yields what its rest yields from what its head does. -/
theorem yields_bind {x : Eval α} {f : α → Eval β} {b : β} :
    Yields (x >>= f) b ↔ ∃ a, Yields x a ∧ Yields (f a) b := by
  constructor
  · intro h
    unfold Yields at h
    rcases hx : x.run with _ | (e | a)
    · rw [run_bind_none hx] at h
      cases h
    · rw [run_bind_error hx] at h
      cases h
    · rw [run_bind_ok hx] at h
      exact ⟨a, hx, h⟩
  · rintro ⟨a, hx, h⟩
    exact (run_bind_ok hx).trans h

/-- Both are true where each is. -/
theorem yields_both {x y : Eval Bool} : Yields (both x y) true ↔ Yields x true ∧ Yields y true := by
  unfold both
  rw [yields_bind]
  constructor
  · rintro ⟨b, hx, hy⟩
    cases b with
    | true => exact ⟨hx, hy⟩
    | false => exact absurd (yields_pure.1 hy) nofun
  · exact fun h => ⟨true, h.1, h.2⟩

/-! ## The same result -/

/-- Two evaluations have one result. -/
structure Settled (x y : Eval α) : Prop where
  eq : x = y
  ends : x.run ≠ none

theorem settled_pure (a : α) : Settled (pure a : Eval α) (pure a) := ⟨rfl, nofun⟩

theorem settled_throw : Settled (throw () : Eval α) (throw ()) := ⟨rfl, nofun⟩

/-- Settled steps make a settled sequence. -/
theorem settled_bind {x y : Eval α} {f g : α → Eval β} (h : Settled x y)
    (hf : ∀ a, Yields x a → Settled (f a) (g a)) : Settled (x >>= f) (y >>= g) := by
  obtain ⟨rfl, hends⟩ := h
  rcases hx : x.run with _ | (e | a)
  · exact absurd hx hends
  · refine ⟨ExceptT.ext ?_, ?_⟩
    · rw [run_bind_error hx, run_bind_error hx]
    · rw [run_bind_error hx]
      exact Option.some_ne_none _
  · obtain ⟨heq, hends'⟩ := hf a hx
    refine ⟨ExceptT.ext ?_, ?_⟩
    · rw [run_bind_ok hx, run_bind_ok hx, heq]
    · rw [run_bind_ok hx]
      exact hends'

theorem settled_both {x y x' y' : Eval Bool} (hx : Settled x x') (hy : Settled y y') :
    Settled (both x y) (both x' y') := by
  refine settled_bind hx fun b _ => ?_
  cases b with
  | true => exact hy
  | false => exact settled_pure false

section Policy

variable {P : Platform} {db : Database} {acl acl' : Row → Eval Bool}

theorem settled_rawValue (r : Row) (f : Field) : Settled (rawValue r f) (rawValue r f) := by
  unfold rawValue
  split
  · exact settled_pure _
  · exact settled_throw

theorem settled_secureValue (r : Row) (f : Field) : Settled (secureValue P r f) (secureValue P r f) := by
  unfold secureValue
  split
  · exact settled_rawValue r f
  · exact settled_pure _
  · exact settled_throw

/-- A comparison of a value. -/
theorem settled_check {x : Eval α} (h : Settled x x) (c : α → Bool) :
    Settled (do pure (c (← x)) : Eval Bool) (do pure (c (← x))) :=
  settled_bind h fun _ _ => settled_pure _

/-- The checks of the elements do not ask the policy. -/
theorem settled_elements (r : Row) (fs : List Field) : Settled (elements P r fs) (elements P r fs) := by
  induction fs with
  | nil => exact settled_pure true
  | cons f fs ih =>
    unfold elements
    split
    · exact settled_throw
    · exact settled_pure false
    · exact ih

/-- A query asks the policy of its own rows only. -/
theorem settled_allowed {l : List Row} (h : ∀ r ∈ l, Settled (acl r) (acl' r)) :
    Settled (allowed acl l) (allowed acl' l) := by
  induction l with
  | nil => exact settled_pure []
  | cons r rs ih =>
    refine settled_bind (h r mem_cons_self) fun own _ => ?_
    exact settled_bind (ih fun r hr => h r (mem_cons_of_mem _ hr)) fun rest _ => settled_pure _

/-- What is allowed is among the rows, and may be read. -/
theorem mem_allowed {l rows : List Row} (h : Yields (allowed acl l) rows) {r : Row} (hr : r ∈ rows) :
    r ∈ l ∧ Yields (acl r) true := by
  induction l generalizing rows with
  | nil =>
    rw [← yields_pure.1 h] at hr
    cases hr
  | cons x xs ih =>
    obtain ⟨own, hown, h⟩ := yields_bind.1 h
    obtain ⟨rest, hrest, h⟩ := yields_bind.1 h
    rw [← yields_pure.1 h] at hr
    split at hr
    · rename_i htrue
      rw [htrue] at hown
      rcases mem_cons.1 hr with rfl | hr
      · exact ⟨mem_cons_self, hown⟩
      · exact (ih hrest hr).imp_left (mem_cons_of_mem x)
    · exact (ih hrest hr).imp_left (mem_cons_of_mem x)

/-- What a query finds in the table. -/
theorem mem_found {t : Table} {preds : List (Field × String)} {r : Row} :
    r ∈ found P db t preds ↔ r ∈ db.rows ∧ r.table = t ∧ matching P preds r := by
  unfold found
  rw [mem_filter, Bool.and_eq_true, decide_eq_true_eq]

/-- A query of one table asks the policy about its rows. -/
theorem settled_query {t : Table} (h : ∀ r, r.table = t → Settled (acl r) (acl' r))
    (preds : List (Field × String)) (limit : ℕ) :
    Settled (query P acl db t preds limit) (query P acl' db t preds limit) := by
  unfold query
  split
  · exact settled_throw
  · exact settled_allowed fun r hr => h r (mem_found.1 (mem_of_mem_take hr)).2.1

/-- The rows of a query are of its table. -/
theorem mem_query {t : Table} {preds : List (Field × String)} {limit : ℕ} {rows : List Row}
    (h : Yields (query P acl db t preds limit) rows) {r : Row} (hr : r ∈ rows) :
    r ∈ found P db t preds ∧ Yields (acl r) true := by
  unfold query at h
  split at h
  · exact absurd h not_yields_throw
  · exact (mem_allowed h hr).imp_left mem_of_mem_take

theorem settled_readable {r : Row} (h : Settled (acl r) (acl' r)) (fs : List Field) :
    Settled (readable P acl r fs) (readable P acl' r fs) := settled_both h (settled_elements r fs)

/-- The test for an ignored filter asks about rows of its table. -/
theorem settled_ignored {t : Table} (h : ∀ r, r.table = t → Settled (acl r) (acl' r))
    (id c user : String) : Settled (referenceFilterIgnored P acl db t id c user)
      (referenceFilterIgnored P acl' db t id c user) := by
  unfold referenceFilterIgnored
  split
  · exact settled_pure true
  · split
    · exact settled_pure true
    · exact settled_bind (settled_query h _ _) fun _ _ => settled_pure _

theorem settled_not {x y : Eval Bool} (h : Settled x y) :
    Settled (do pure !(← x) : Eval Bool) (do pure !(← y)) := settled_bind h fun _ _ => settled_pure _

/-- An owned conversation asks about interactions. -/
theorem settled_ownedConversation (h : ∀ r, r.table = .interaction → Settled (acl r) (acl' r))
    (c user : String) : Settled (ownedConversation P acl db c user) (ownedConversation P acl' db c user) := by
  unfold ownedConversation
  split
  · exact settled_pure false
  · refine settled_bind (settled_query h _ _) fun rows hrows => ?_
    cases rows with
    | nil => exact settled_pure false
    | cons r =>
      have htable := (mem_found.1 (mem_query hrows mem_cons_self).1).2.1
      refine settled_both (settled_readable (h r htable) _) (settled_both (settled_pure _) ?_)
      refine settled_both (settled_check (settled_secureValue r _) _) ?_
      refine settled_both (settled_check (settled_secureValue r _) _) ?_
      refine settled_both (settled_check (settled_secureValue r _) _) (settled_both (settled_pure _) ?_)
      exact settled_not (settled_ignored h _ _ _)

/-- A securely owned conversation asks about interactions and conversations. -/
theorem settled_secureOwnedConversation
    (hi : ∀ r, r.table = .interaction → Settled (acl r) (acl' r))
    (hc : ∀ r, r.table = .sys_cs_conversation → Settled (acl r) (acl' r)) (c user : String) :
    Settled (secureOwnedConversation P acl db c user) (secureOwnedConversation P acl' db c user) := by
  unfold secureOwnedConversation
  split
  · exact settled_pure false
  · refine settled_bind (settled_query hc _ _) fun rows hrows => ?_
    cases rows with
    | nil => exact settled_pure false
    | cons r =>
      have htable := (mem_found.1 (mem_query hrows mem_cons_self).1).2.1
      refine settled_both (settled_readable (hc r htable) _) (settled_both (settled_pure _) ?_)
      refine settled_both (settled_check (settled_secureValue r _) _) (settled_both (settled_pure _) ?_)
      exact settled_both (settled_not (settled_ignored hc _ _ _)) (settled_ownedConversation hi _ _)

/-- An own active plan asks about rows of the three tables before messages. -/
theorem settled_secureOwnActivePlan
    (hi : ∀ r, r.table = .interaction → Settled (acl r) (acl' r))
    (hc : ∀ r, r.table = .sys_cs_conversation → Settled (acl r) (acl' r))
    (hp : ∀ r, r.table = .sn_aia_execution_plan → Settled (acl r) (acl' r)) (p user : String) :
    Settled (secureOwnActivePlan P acl db p user) (secureOwnActivePlan P acl' db p user) := by
  unfold secureOwnActivePlan
  split
  · exact settled_pure false
  · refine settled_bind (settled_query hp _ _) fun rows hrows => ?_
    cases rows with
    | nil => exact settled_pure false
    | cons r =>
      have htable := (mem_found.1 (mem_query hrows mem_cons_self).1).2.1
      refine settled_both (settled_readable (hp r htable) _) (settled_both (settled_pure _) ?_)
      refine settled_both (settled_check (settled_secureValue r _) _) ?_
      refine settled_bind (settled_secureValue r _) fun c _ => ?_
      refine settled_both (settled_pure _) (settled_both (settled_pure _) ?_)
      exact settled_both (settled_not (settled_ignored hp _ _ _)) (settled_secureOwnedConversation hi hc _ _)

/-- The place of a table in the order of the lookups. -/
def rank : Table → ℕ
  | .interaction => 1
  | .sys_cs_conversation => 2
  | .sn_aia_execution_plan => 3
  | .sn_aia_message => 4

/-- The policy of a table applies itself to rows of tables before it only. -/
theorem settled_policy {t : Table} (h : ∀ r, rank r.table < rank t → Settled (acl r) (acl' r)) (row : Row) :
    Settled (policy P acl db t row) (policy P acl' db t row) := by
  have hof : ∀ t', rank t' < rank t → ∀ r, r.table = t' → Settled (acl r) (acl' r) :=
    fun t' ht r hr => h r (hr ▸ ht)
  unfold policy
  split
  · exact settled_throw
  · split
    · exact settled_pure false
    · split
      · exact settled_throw
      · exact settled_pure false
      · cases t with
        | interaction =>
          refine settled_both (settled_pure _) (settled_both (settled_check (settled_rawValue _ _) _) ?_)
          refine settled_both (settled_check (settled_rawValue _ _) _) ?_
          exact settled_both (settled_check (settled_rawValue _ _) _) (settled_check (settled_rawValue _ _) _)
        | sys_cs_conversation =>
          refine settled_both (settled_check (settled_rawValue _ _) _) ?_
          refine settled_both (settled_check (settled_rawValue _ _) _) ?_
          exact settled_ownedConversation (hof _ (by decide)) _ _
        | sn_aia_execution_plan =>
          refine settled_both (settled_pure _) (settled_both (settled_check (settled_rawValue _ _) _) ?_)
          refine settled_both (settled_check (settled_rawValue _ _) _) ?_
          exact settled_bind (settled_rawValue _ _) fun c _ =>
            settled_secureOwnedConversation (hof _ (by decide)) (hof _ (by decide)) _ _
        | sn_aia_message =>
          refine settled_both (settled_pure _) ?_
          split
          · exact settled_pure false
          · refine settled_both (settled_pure _) ?_
            refine settled_both (settled_check (settled_rawValue _ _) _) ?_
            refine settled_bind (settled_rawValue _ _) fun message _ => ?_
            refine settled_both (settled_check (settled_rawValue _ _) _) (settled_both (settled_pure _) ?_)
            exact settled_bind (settled_rawValue _ _) fun p _ => settled_secureOwnActivePlan
              (hof _ (by decide)) (hof _ (by decide)) (hof _ (by decide)) _ _

end Policy

/-- Whether the user may read a row, with the policy applied at most `n` times inside itself. -/
def access (P : Platform) (db : Database) (n : ℕ) (r : Row) : Eval Bool := do
  let own ← ExceptT.mk ((canRead P db n r.table r).map .ok)
  pure (own || P.other r)

/-- One level of the recursion. -/
theorem canRead_succ (P : Platform) (db : Database) (n : ℕ) (t : Table) (row : Row) :
    canRead P db (n + 1) t row = caught (policy P (access P db n) db t row) := rfl

/-- Every table has a rank. -/
theorem one_le_rank (t : Table) : 1 ≤ rank t := by
  cases t <;> decide

/-- The policy ends for every row, and further applications change nothing. -/
theorem canRead_ends (P : Platform) (db : Database) {n m : ℕ} {t : Table} (row : Row) (hn : rank t ≤ n)
    (hm : rank t ≤ m) : canRead P db n t row = canRead P db m t row ∧ canRead P db n t row ≠ none := by
  induction n generalizing m t row with
  | zero => exact absurd (one_le_rank t) (by omega)
  | succ n ih =>
    obtain ⟨m, rfl⟩ : ∃ k, m = k + 1 := ⟨m - 1, by have := one_le_rank t; omega⟩
    have hsettled : Settled (policy P (access P db n) db t row) (policy P (access P db m) db t row) := by
      refine settled_policy (fun r hr => ?_) row
      obtain ⟨heq, hne⟩ := ih r (show rank r.table ≤ n by omega) (show rank r.table ≤ m by omega)
      have hbase : Settled (ExceptT.mk ((canRead P db n r.table r).map .ok) : Eval Bool)
          (ExceptT.mk ((canRead P db m r.table r).map .ok)) := by
        refine ⟨by rw [heq], ?_⟩
        rw [ExceptT.run_mk]
        exact fun h => hne (Option.map_eq_none_iff.1 h)
      exact settled_bind hbase fun _ _ => settled_pure _
    rw [canRead_succ, canRead_succ, ← hsettled.eq]
    refine ⟨rfl, fun h => ?_⟩
    unfold caught at h
    rcases hrun : (policy P (access P db n) db t row).run with _ | (e | b)
    · exact hsettled.ends hrun
    · rw [hrun] at h
      cases h
    · rw [hrun] at h
      cases h

end StrixAlloy.ContextRead
