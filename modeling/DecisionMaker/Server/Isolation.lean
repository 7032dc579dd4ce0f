import DecisionMaker.Server.Ownership

namespace DecisionMaker.Server

open Library

structure ThreadRows where
  checkpoints : Bool
  writes : Bool
  lastTouched : Option Int
  deriving DecidableEq

def Tables.rows (t : Tables) (threadId : String) : ThreadRows where
  checkpoints := decide (threadId ∈ t.checkpoints)
  writes := decide (threadId ∈ t.writes)
  lastTouched := t.brainstormMeta.lookup threadId

namespace Statement

def onRows (r : ThreadRows) : Statement → ThreadRows
  | .insertCheckpoint _ => { r with checkpoints := true }
  | .insertWrites _ => { r with writes := true }
  | .replaceMeta _ lastTouched => { r with lastTouched := some lastTouched }
  | .deleteCheckpoints _ => { r with checkpoints := false }
  | .deleteWrites _ => { r with writes := false }
  | .deleteMeta _ => { r with lastTouched := none }

theorem rows_apply_self (statement : Statement) (t : Tables) :
    (statement.apply t).rows statement.threadId = statement.onRows (t.rows statement.threadId) := by
  cases statement <;> dsimp only [apply, Tables.rows, Statement.threadId, onRows] <;> simp

theorem rows_apply_other (statement : Statement) (t : Tables) {threadId : String}
    (apart : statement.threadId ≠ threadId) : (statement.apply t).rows threadId = t.rows threadId := by
  cases statement <;> dsimp only [apply, Tables.rows, Statement.threadId] at apart ⊢ <;>
    simp [Ne.symm apart, AList.lookup_insert_ne, AList.lookup_erase_ne]

end Statement

def Action.Names (threadId : String) : Action → Prop
  | .select other => other = threadId
  | .execute statement => statement.threadId = threadId
  | .commit => True

theorem touchIfNamed_names {threadId : String} {nowUnix : Int} {a : Action}
    (member : a ∈ touchIfNamed threadId nowUnix) : a.Names threadId := by
  unfold touchIfNamed at member
  split at member
  · cases member
  · simp only [touch, List.mem_cons, List.not_mem_nil, or_false] at member
    rcases member with rfl | rfl <;> simp [Action.Names, Statement.threadId]

theorem SaverCall.next_names {c : SaverCall} {a : Action} (next : c.next = some a) :
    a.Names c.operation.threadId := by
  have member : a ∈ c.operation.program := List.mem_of_getElem? next
  cases operation : c.operation <;> simp only [operation, Operation.program, List.mem_cons] at member
  case aget | agetTuple =>
    rcases member with rfl | touches
    · rfl
    · exact touchIfNamed_names touches
  case aput | aputWrites =>
    rcases member with rfl | rfl | touches
    · rfl
    · exact True.intro
    · exact touchIfNamed_names touches
  case adeleteThread =>
    rcases member with rfl | rfl | rfl | rfl | none
    · rfl
    · rfl
    · rfl
    · exact True.intro
    · cases none

namespace Store

section
variable {ι : Type*} {s s' t t' : Store ι} {threadId : String}

/-- The second store shows the thread as the first does, and has no other thread. -/
structure Alone (threadId : String) (s t : Store ι) : Prop where
  rows : t.tables.rows threadId = s.tables.rows threadId
  calls : ∀ id c, t.calls id = some c ↔ s.calls id = some c ∧ c.operation.threadId = threadId

theorem rows_act_other (s : Store ι) (id : ι) {a : Action} {other : String} (names : a.Names other)
    (apart : other ≠ threadId) :
    (tablesOf (s.act id a).journal).rows threadId = s.tables.rows threadId := by
  rw [tables_act]
  cases a with
  | select _ | commit => rfl
  | execute statement => exact statement.rows_apply_other _ (names ▸ apart)

theorem Alone.rows_act (alone : Alone threadId s t) (id : ι) {a : Action} (names : a.Names threadId) :
    (tablesOf (t.act id a).journal).rows threadId = (tablesOf (s.act id a).journal).rows threadId := by
  rw [tables_act, tables_act]
  cases a with
  | select _ | commit => exact alone.rows
  | execute statement =>
      obtain rfl : statement.threadId = threadId := names
      exact (statement.rows_apply_self _).trans ((congrArg statement.onRows alone.rows).trans
        (statement.rows_apply_self _).symm)

theorem Alone.advance (alone : Alone threadId s t) (c : SaverCall) {a : Action} (names : a.Names threadId) :
    c.advance t.tables a = c.advance s.tables a := by
  cases a with
  | select other =>
      obtain rfl : other = threadId := names
      have found := congrArg ThreadRows.checkpoints alone.rows
      simp only [Tables.rows] at found
      simp only [SaverCall.advance, found]
  | execute _ | commit => rfl

variable [DecidableEq ι]

theorem Alone.setCall (alone : Alone threadId s t) {connection connection' : Connection (ι × Statement)}
    (rows : (tablesOf connection'.journal).rows threadId = (tablesOf connection.journal).rows threadId)
    (id : ι) {c : SaverCall} (own : c.operation.threadId = threadId) :
    Alone threadId ({ s with connection }.setCall id c) ({ t with connection := connection' }.setCall id c) where
  rows := rows
  calls other d := by
    by_cases same : other = id
    · subst same
      rw [setCall_self, setCall_self]
      constructor
      · rintro ⟨⟩
        exact ⟨rfl, own⟩
      · exact fun called => called.1
    · rw [setCall_other _ same, setCall_other _ same]
      exact alone.calls other d

theorem Alone.aside (alone : Alone threadId s t) {connection : Connection (ι × Statement)}
    (rows : (tablesOf connection.journal).rows threadId = s.tables.rows threadId) (id : ι) {c : SaverCall}
    (other : c.operation.threadId ≠ threadId)
    (former : ∀ d, s.calls id = some d → d.operation.threadId ≠ threadId) :
    Alone threadId ({ s with connection }.setCall id c) t where
  rows := alone.rows.trans rows.symm
  calls key d := by
    rw [alone.calls]
    by_cases same : key = id
    · subst same
      rw [setCall_self]
      constructor
      · exact fun called => absurd called.2 (former d called.1)
      · rintro ⟨⟨⟩, own⟩
        exact absurd own other
    · rw [setCall_other _ same]

theorem Alone.act (alone : Alone threadId s t) {id : ι} {c : SaverCall} {a : Action}
    (called : s.calls id = some c) (next : c.next = some a) (finish : SaverCall → SaverCall)
    (same : ∀ d, (finish d).operation = d.operation) :
    Alone threadId ({ s with connection := s.act id a }.setCall id (finish (c.advance s.tables a))) t ∨
      t.calls id = some c ∧
        Alone threadId ({ s with connection := s.act id a }.setCall id (finish (c.advance s.tables a)))
          ({ t with connection := t.act id a }.setCall id (finish (c.advance t.tables a))) := by
  have names := SaverCall.next_names next
  by_cases own : c.operation.threadId = threadId
  · refine .inr ⟨(alone.calls id c).mpr ⟨called, own⟩, ?_⟩
    rw [alone.advance c (own ▸ names)]
    exact alone.setCall (alone.rows_act id (own ▸ names)) id ((congrArg Operation.threadId (same _)).trans own)
  · refine .inl (alone.aside (rows_act_other s id names own) id ?_ fun d former => ?_)
    · rw [same]
      exact own
    · cases called.symm.trans former
      exact own

theorem Alone.step {e : StoreEvent ι} (alone : Alone threadId s t) (taken : s.step e = some s') :
    Alone threadId s' t ∨ ∃ t', t.step e = some t' ∧ Alone threadId s' t' := by
  cases step_steps taken with
  | call id operation fresh =>
      by_cases own : operation.threadId = threadId
      · have free : t.calls id = none := by
          cases called : t.calls id with
          | none => rfl
          | some c => rw [((alone.calls id c).mp called).1] at fresh; cases fresh
        exact .inr ⟨t.setCall id { operation }, by simp [Store.step, free], alone.setCall alone.rows id own⟩
      · exact .inl (alone.aside rfl id own fun d called => by rw [fresh] at called; cases called)
  | returns id c a called running next =>
      refine (alone.act called next (fun d => d) fun _ => rfl).imp_right fun beside => ⟨_, ?_, beside.2⟩
      simp only [Store.step, beside.1, running, next]
  | raisesAfter id c a called running next =>
      refine (alone.act called next (fun d => { d with status := .raised }) fun _ => rfl).imp_right
        fun beside => ⟨_, ?_, beside.2⟩
      simp only [Store.step, beside.1, running, next, if_true]
  | raisesBefore id c a called running next =>
      by_cases own : c.operation.threadId = threadId
      · have called' := (alone.calls id c).mpr ⟨called, own⟩
        exact .inr ⟨t.setCall id { c with status := .raised }, by simp [Store.step, called', running, next],
          alone.setCall alone.rows id own⟩
      · exact .inl (alone.aside rfl id own fun d former => by
          cases called.symm.trans former
          exact own)

theorem Alone.run {es : List (StoreEvent ι)} (alone : Alone threadId s t)
    (taken : run Store.step s es = some s') :
    ∃ own t', List.Sublist own es ∧ Library.run Store.step t own = some t' ∧ Alone threadId s' t' := by
  induction es generalizing s t with
  | nil => cases taken; exact ⟨[], t, .slnil, rfl, alone⟩
  | cons e es ih =>
      obtain ⟨u, first, rest⟩ := (run_cons _).mp taken
      rcases alone.step first with aside | ⟨v, own, beside⟩
      · obtain ⟨own, t', sublist, followed, final⟩ := ih aside rest
        exact ⟨own, t', sublist.cons e, followed, final⟩
      · obtain ⟨later, t', sublist, followed, final⟩ := ih beside rest
        exact ⟨e :: later, t', sublist.cons_cons e, (run_cons _).mpr ⟨v, own, followed⟩, final⟩

/-- Whatever the other threads do, and whenever they do it, the callers of a thread see what they see in
a run of their own operations alone: the same results, and the same rows of the thread. -/
theorem isolated {es : List (StoreEvent ι)} (taken : run step ({} : Store ι) es = some s)
    (threadId : String) :
    ∃ own t, List.Sublist own es ∧ run step ({} : Store ι) own = some t ∧ Alone threadId s t := by
  exact Alone.run ⟨rfl, fun id c => by simp⟩ taken

end

theorem isolated_interrupted : ∃ s own t, run step ({} : Store Nat) interruptedDeletion = some s ∧
    List.Sublist own interruptedDeletion ∧ run step ({} : Store Nat) own = some t ∧ Alone "s2" s t := by
  obtain ⟨own, t, beside⟩ := isolated (rfl : run step ({} : Store Nat) interruptedDeletion = some _) "s2"
  exact ⟨_, own, t, rfl, beside⟩

end Store

end DecisionMaker.Server
