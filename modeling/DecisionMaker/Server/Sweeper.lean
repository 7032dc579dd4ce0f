import DecisionMaker.Library.Schedule
import Mathlib.Algebra.Order.Floor.Ring
import Mathlib.Data.List.AList
import Mathlib.Data.Rat.Floor
import Mathlib.Tactic.Linarith

namespace DecisionMaker.Server

open Library

structure Config where
  turnTimeoutSec : Int := 120
  sweepThresholdSecs : Int := 600
  validateSweepThreshold : 5 * turnTimeoutSec ≤ sweepThresholdSecs := by decide

abbrev MetaTable (τ : Type*) := AList fun _ : τ => Int

def MetaTable.listStale {τ : Type*} (table : MetaTable τ) (nowUnix thresholdSec : Int) : List τ :=
  let cutoff := nowUnix - thresholdSec
  (table.entries.filter fun row => row.2 < cutoff).map Sigma.fst

/-- What a turn still owes to the table after an access of its checkpoint: the clock is read when
the inner saver has returned, the row is replaced after that. -/
inductive TouchPhase
  | settled
  | accessed
  | stamped (nowUnix : Int)
  deriving DecidableEq

structure Turn (ι τ : Type*) where
  id : ι
  thread : τ
  started : ℚ
  touch : TouchPhase := .settled
  accessed : Bool := false
  touched : Bool := false

inductive SweepPhase (τ : Type*)
  | sleeping
  | listing (nowUnix : Int)
  | deleting (staleIds : List τ)
  deriving DecidableEq

inductive SweepEvent (ι τ : Type*)
  | start (id : ι) (thread : τ)
  | access (id : ι)
  | stamp (id : ι)
  | touch (id : ι)
  | finish (id : ι)
  | tick
  | listStale (staleIds : List τ)
  | adeleteThread
  | deleteError
  | summary
  | advance (seconds : ℚ)

structure Host (ι τ : Type*) where
  clock : ℚ
  table : MetaTable τ
  turns : List (Turn ι τ) := []
  sweep : SweepPhase τ := .sleeping

section
variable {ι τ : Type*} [DecidableEq ι] [DecidableEq τ]

namespace Host

def replaceTurn (s : Host ι τ) (u : Turn ι τ) : Host ι τ :=
  { s with turns := s.turns.map fun v => if v.id = u.id then u else v }

def step (cfg : Config) (s : Host ι τ) : SweepEvent ι τ → Option (Host ι τ)
  | .start id thread =>
      -- under a negative timeout a turn is over before it begins
      if 0 ≤ cfg.turnTimeoutSec ∧ ∀ u ∈ s.turns, u.id ≠ id then
        some { s with turns := { id, thread, started := s.clock } :: s.turns }
      else none
  | .access id => do
      let u ← s.turns.find? fun u => u.id = id
      match u.touch with
      | .settled => some (s.replaceTurn { u with touch := .accessed, accessed := true })
      | _ => none
  | .stamp id => do
      let u ← s.turns.find? fun u => u.id = id
      match u.touch with
      | .accessed => some (s.replaceTurn { u with touch := .stamped ⌊s.clock⌋ })
      | _ => none
  | .touch id => do
      let u ← s.turns.find? fun u => u.id = id
      match u.touch with
      | .stamped nowUnix =>
          some { s.replaceTurn { u with touch := .settled, touched := true } with
            table := s.table.insert u.thread nowUnix }
      | _ => none
  | .finish id => some { s with turns := s.turns.filter fun u => u.id ≠ id }
  | .tick =>
      match s.sweep with
      | .sleeping => some { s with sweep := .listing ⌊s.clock⌋ }
      | _ => none
  | .listStale staleIds =>
      match s.sweep with
      | .listing nowUnix =>
          -- the rows come in whatever order the database has them
          if staleIds.Perm (s.table.listStale nowUnix cfg.sweepThresholdSecs) then
            some { s with sweep := .deleting staleIds }
          else none
      | _ => none
  | .adeleteThread =>
      match s.sweep with
      | .deleting (thread :: staleIds) =>
          some { s with table := s.table.erase thread, sweep := .deleting staleIds }
      | _ => none
  | .deleteError =>
      match s.sweep with
      | .deleting (_ :: staleIds) => some { s with sweep := .deleting staleIds }
      | _ => none
  | .summary =>
      match s.sweep with
      | .deleting [] => some { s with sweep := .sleeping }
      | _ => none
  | .advance seconds =>
      if 0 ≤ seconds ∧ ∀ u ∈ s.turns, s.clock + seconds - u.started ≤ cfg.turnTimeoutSec then
        some { s with clock := s.clock + seconds }
      else none

def doomed (s : Host ι τ) : List τ :=
  match s.sweep with
  | .deleting staleIds => staleIds
  | _ => []

end Host

def DeletesSafely (cfg : Config) (s : Host ι τ) (e : SweepEvent ι τ) : Prop :=
  e = .adeleteThread → ∀ thread staleIds, s.sweep = .deleting (thread :: staleIds) →
    (∀ u ∈ s.turns, u.thread = thread → u.accessed = false) ∧
    ∀ lastTouched, s.table.lookup thread = some lastTouched →
      cfg.sweepThresholdSecs ≤ s.clock - lastTouched

def Separated (s : Host ι τ) : SweepEvent ι τ → Prop
  | .access id => ∀ u ∈ s.turns, u.id = id → u.thread ∉ s.doomed
  | .listStale staleIds => ∀ u ∈ s.turns, u.thread ∈ staleIds → u.touch = .settled
  | _ => True

instance (s : Host ι τ) : ∀ e, Decidable (Separated s e)
  | .access id => inferInstanceAs (Decidable (∀ u ∈ s.turns, u.id = id → u.thread ∉ s.doomed))
  | .listStale staleIds =>
      inferInstanceAs (Decidable (∀ u ∈ s.turns, u.thread ∈ staleIds → u.touch = .settled))
  | .start _ _ | .stamp _ | .touch _ | .finish _ | .tick | .adeleteThread | .deleteError | .summary
  | .advance _ => inferInstanceAs (Decidable True)

end

section
variable {ι τ : Type*} [DecidableEq τ]

theorem MetaTable.mem_listStale {table : MetaTable τ} {nowUnix thresholdSec : Int} {thread : τ} :
    thread ∈ table.listStale nowUnix thresholdSec ↔
      ∃ lastTouched, table.lookup thread = some lastTouched ∧ lastTouched < nowUnix - thresholdSec := by
  simp only [listStale, List.mem_map, List.mem_filter, decide_eq_true_eq]
  constructor
  · rintro ⟨⟨_, lastTouched⟩, ⟨row, stale⟩, rfl⟩
    exact ⟨lastTouched, AList.mem_lookup_iff.mpr row, stale⟩
  · rintro ⟨lastTouched, found, stale⟩
    exact ⟨⟨thread, lastTouched⟩, ⟨AList.mem_lookup_iff.mp found, stale⟩, rfl⟩

structure Turn.Sound (cfg : Config) (clock : ℚ) (table : MetaTable τ) (u : Turn ι τ) : Prop where
  begun : u.started ≤ clock
  punctual : clock - u.started ≤ cfg.turnTimeoutSec
  owes : u.touch ≠ .settled ∨ u.touched = true → u.accessed = true
  settles : u.accessed = true → u.touch = .settled → u.touched = true
  stamped : ∀ nowUnix, u.touch = .stamped nowUnix → ⌊u.started⌋ ≤ nowUnix
  -- an older stamp of another turn in flight may have replaced the row, by at most a timeout
  recorded : u.touched = true →
    ∃ lastTouched, table.lookup u.thread = some lastTouched ∧
      ⌊u.started⌋ - cfg.turnTimeoutSec ≤ lastTouched

structure Host.Sound (cfg : Config) (s : Host ι τ) : Prop where
  turns : ∀ u ∈ s.turns, u.Sound cfg s.clock s.table
  listed : ∀ nowUnix, s.sweep = .listing nowUnix → nowUnix ≤ ⌊s.clock⌋
  spared : ∀ thread ∈ s.doomed, ∀ u ∈ s.turns, u.thread = thread → u.accessed = false
  aged : ∀ thread ∈ s.doomed, ∀ lastTouched, s.table.lookup thread = some lastTouched →
    lastTouched + cfg.sweepThresholdSecs ≤ ⌊s.clock⌋

section
variable {cfg : Config} {clock : ℚ} {table : MetaTable τ} {u v : Turn ι τ}

theorem Turn.Sound.not_stale (sound : u.Sound cfg clock table) (touched : u.touched = true)
    {nowUnix lastTouched : Int} (before : nowUnix ≤ ⌊clock⌋)
    (row : table.lookup u.thread = some lastTouched) :
    ¬ lastTouched < nowUnix - cfg.sweepThresholdSecs := by
  intro stale
  obtain ⟨recorded, found, recent⟩ := sound.recorded touched
  obtain rfl : recorded = lastTouched := Option.some.inj (found.symm.trans row)
  have elapsed : ⌊clock⌋ ≤ ⌊u.started⌋ + cfg.turnTimeoutSec := by
    rw [← Int.floor_add_intCast]
    exact Int.floor_le_floor (by linarith [sound.punctual])
  have positive : 0 ≤ cfg.turnTimeoutSec := by
    have : (0 : ℚ) ≤ cfg.turnTimeoutSec := by linarith [sound.begun, sound.punctual]
    exact_mod_cast this
  have := cfg.validateSweepThreshold
  omega

theorem Turn.Sound.apart (sound : u.Sound cfg clock table) (other : v.Sound cfg clock table) :
    ⌊u.started⌋ - cfg.turnTimeoutSec ≤ ⌊v.started⌋ := by
  have : ⌊u.started⌋ ≤ ⌊v.started⌋ + cfg.turnTimeoutSec := by
    rw [← Int.floor_add_intCast]
    exact Int.floor_le_floor (by linarith [sound.begun, other.punctual])
  omega

end

namespace Host
variable {cfg : Config} {s s' : Host ι τ} {e : SweepEvent ι τ}

theorem Sound.not_doomed (sound : s.Sound cfg) {u : Turn ι τ} (member : u ∈ s.turns)
    (accessed : u.accessed = true) : u.thread ∉ s.doomed := by
  intro doomed
  simp [sound.spared _ doomed u member rfl] at accessed

theorem Sound.listStale (sound : s.Sound cfg) {nowUnix : Int} {staleIds : List τ}
    (sweep : s.sweep = .listing nowUnix)
    (rows : staleIds.Perm (s.table.listStale nowUnix cfg.sweepThresholdSecs))
    (settled : ∀ u ∈ s.turns, u.thread ∈ staleIds → u.touch = .settled) :
    ({ s with sweep := .deleting staleIds } : Host ι τ).Sound cfg := by
  have stale {thread : τ} (doomed : thread ∈ staleIds) := MetaTable.mem_listStale.mp (rows.subset doomed)
  have before := sound.listed nowUnix sweep
  refine ⟨sound.turns, fun _ at' => (by cases at'), fun thread doomed u member same => ?_,
    fun thread doomed lastTouched row => ?_⟩
  · subst same
    obtain ⟨lastTouched, row, old⟩ := stale doomed
    have now := sound.turns u member
    by_contra accessed
    have touched := now.settles (by simpa using accessed) (settled u member doomed)
    exact now.not_stale touched before row old
  · obtain ⟨lastTouched', row', old⟩ := stale doomed
    obtain rfl : lastTouched = lastTouched' := Option.some.inj (row.symm.trans row')
    show lastTouched + cfg.sweepThresholdSecs ≤ ⌊s.clock⌋
    omega

theorem Sound.adeleteThread (sound : s.Sound cfg) {thread : τ} {staleIds : List τ}
    (sweep : s.sweep = .deleting (thread :: staleIds)) :
    ({ s with table := s.table.erase thread, sweep := .deleting staleIds } : Host ι τ).Sound cfg := by
  have doomed {other : τ} (member : other ∈ thread :: staleIds) : other ∈ s.doomed := by
    simpa only [Host.doomed, sweep] using member
  refine ⟨fun u member => ?_, fun _ at' => (by cases at'), fun other among => ?_,
    fun other among lastTouched row => ?_⟩
  · have now := sound.turns u member
    refine ⟨now.begun, now.punctual, now.owes, now.settles, now.stamped, fun touched => ?_⟩
    obtain ⟨lastTouched, row, recent⟩ := now.recorded touched
    have spared : u.thread ≠ thread := by
      rintro rfl
      exact sound.not_doomed member (now.owes (.inr touched)) (doomed List.mem_cons_self)
    exact ⟨lastTouched, (AList.lookup_erase_ne spared).trans row, recent⟩
  · exact sound.spared other (doomed (List.mem_cons_of_mem _ among))
  · by_cases same : other = thread
    · subst same
      rw [AList.lookup_erase] at row
      cases row
    · exact sound.aged other (doomed (List.mem_cons_of_mem _ among)) lastTouched
        ((AList.lookup_erase_ne same).symm.trans row)

theorem Sound.advance (sound : s.Sound cfg) {seconds : ℚ} (forward : 0 ≤ seconds)
    (punctual : ∀ u ∈ s.turns, s.clock + seconds - u.started ≤ cfg.turnTimeoutSec) :
    ({ s with clock := s.clock + seconds } : Host ι τ).Sound cfg := by
  have later : ⌊s.clock⌋ ≤ ⌊s.clock + seconds⌋ := Int.floor_le_floor (by linarith)
  refine ⟨fun u member => ?_, fun nowUnix at' => (sound.listed nowUnix at').trans later, sound.spared,
    fun thread doomed lastTouched row => (sound.aged thread doomed lastTouched row).trans later⟩
  have now := sound.turns u member
  exact ⟨by linarith [now.begun], punctual u member, now.owes, now.settles, now.stamped, now.recorded⟩

theorem Sound.deletesSafely (sound : s.Sound cfg) : DeletesSafely cfg s e := by
  rintro rfl thread staleIds sweep
  have doomed : thread ∈ s.doomed := by simp [Host.doomed, sweep]
  refine ⟨sound.spared thread doomed, fun lastTouched row => ?_⟩
  have aged := sound.aged thread doomed lastTouched row
  have floor := Int.floor_le s.clock
  have : (lastTouched : ℚ) + cfg.sweepThresholdSecs ≤ ⌊s.clock⌋ := by exact_mod_cast aged
  linarith

end Host

end

section
variable {ι τ : Type*} [DecidableEq ι]

namespace Host

theorem turn_found {s : Host ι τ} {id : ι} {u : Turn ι τ}
    (found : s.turns.find? (fun u => u.id = id) = some u) : u ∈ s.turns ∧ u.id = id :=
  ⟨List.mem_of_find?_eq_some found, by simpa using List.find?_some found⟩

theorem mem_replaceTurn {s : Host ι τ} {u v : Turn ι τ} (member : v ∈ (s.replaceTurn u).turns) :
    v = u ∨ v ∈ s.turns := by
  obtain ⟨w, old, replaced⟩ := List.mem_map.mp member
  split at replaced
  · exact .inl replaced.symm
  · exact .inr (replaced ▸ old)

end Host

variable [DecidableEq τ]

namespace Host

inductive Steps (cfg : Config) (s : Host ι τ) : SweepEvent ι τ → Host ι τ → Prop
  | start (id : ι) (thread : τ) (positive : 0 ≤ cfg.turnTimeoutSec) :
      Steps cfg s (.start id thread)
        { s with turns := { id, thread, started := s.clock } :: s.turns }
  | access (u : Turn ι τ) (member : u ∈ s.turns) (touch : u.touch = .settled) :
      Steps cfg s (.access u.id) (s.replaceTurn { u with touch := .accessed, accessed := true })
  | stamp (u : Turn ι τ) (member : u ∈ s.turns) (touch : u.touch = .accessed) :
      Steps cfg s (.stamp u.id) (s.replaceTurn { u with touch := .stamped ⌊s.clock⌋ })
  | touch (u : Turn ι τ) (nowUnix : Int) (member : u ∈ s.turns) (touch : u.touch = .stamped nowUnix) :
      Steps cfg s (.touch u.id) { s.replaceTurn { u with touch := .settled, touched := true } with
        table := s.table.insert u.thread nowUnix }
  | finish (id : ι) : Steps cfg s (.finish id) { s with turns := s.turns.filter fun u => u.id ≠ id }
  | tick (sweep : s.sweep = .sleeping) : Steps cfg s .tick { s with sweep := .listing ⌊s.clock⌋ }
  | listStale (nowUnix : Int) (staleIds : List τ) (sweep : s.sweep = .listing nowUnix)
      (rows : staleIds.Perm (s.table.listStale nowUnix cfg.sweepThresholdSecs)) :
      Steps cfg s (.listStale staleIds) { s with sweep := .deleting staleIds }
  | adeleteThread (thread : τ) (staleIds : List τ) (sweep : s.sweep = .deleting (thread :: staleIds)) :
      Steps cfg s .adeleteThread { s with table := s.table.erase thread, sweep := .deleting staleIds }
  | deleteError (thread : τ) (staleIds : List τ) (sweep : s.sweep = .deleting (thread :: staleIds)) :
      Steps cfg s .deleteError { s with sweep := .deleting staleIds }
  | summary (sweep : s.sweep = .deleting []) : Steps cfg s .summary { s with sweep := .sleeping }
  | advance (seconds : ℚ) (forward : 0 ≤ seconds)
      (punctual : ∀ u ∈ s.turns, s.clock + seconds - u.started ≤ cfg.turnTimeoutSec) :
      Steps cfg s (.advance seconds) { s with clock := s.clock + seconds }

theorem step_cases {cfg : Config} {s s' : Host ι τ} {e : SweepEvent ι τ}
    (taken : s.step cfg e = some s') : Steps cfg s e s' := by
  cases e with
  | start id thread =>
      simp only [step] at taken
      split at taken <;> cases taken
      exact .start id thread (And.left ‹_›)
  | access id =>
      obtain ⟨u, found, goes⟩ := Option.bind_eq_some_iff.mp taken
      obtain ⟨member, rfl⟩ := turn_found found
      split at goes <;> cases goes
      exact .access u member ‹_›
  | stamp id =>
      obtain ⟨u, found, goes⟩ := Option.bind_eq_some_iff.mp taken
      obtain ⟨member, rfl⟩ := turn_found found
      split at goes <;> cases goes
      exact .stamp u member ‹_›
  | touch id =>
      obtain ⟨u, found, goes⟩ := Option.bind_eq_some_iff.mp taken
      obtain ⟨member, rfl⟩ := turn_found found
      split at goes <;> cases goes
      exact .touch u _ member ‹_›
  | finish id => cases taken; exact .finish id
  | tick =>
      simp only [step] at taken
      split at taken <;> cases taken
      exact .tick ‹_›
  | listStale staleIds =>
      simp only [step] at taken
      split at taken
      · split at taken <;> cases taken
        exact .listStale _ staleIds ‹_› ‹_›
      · cases taken
  | adeleteThread =>
      simp only [step] at taken
      split at taken <;> cases taken
      exact .adeleteThread _ _ ‹_›
  | deleteError =>
      simp only [step] at taken
      split at taken <;> cases taken
      exact .deleteError _ _ ‹_›
  | summary =>
      simp only [step] at taken
      split at taken <;> cases taken
      exact .summary ‹_›
  | advance seconds =>
      simp only [step] at taken
      split at taken <;> cases taken
      rename_i enabled
      exact .advance seconds enabled.1 enabled.2

variable {cfg : Config} {s s' : Host ι τ} {e : SweepEvent ι τ}

theorem Sound.replaceTurn (sound : s.Sound cfg) {u : Turn ι τ}
    (replaced : u.Sound cfg s.clock s.table) (spares : u.accessed = true → u.thread ∉ s.doomed) :
    (s.replaceTurn u).Sound cfg where
  turns v member := by
    rcases mem_replaceTurn member with rfl | old
    · exact replaced
    · exact sound.turns v old
  listed := sound.listed
  spared thread doomed v member same := by
    rcases mem_replaceTurn member with rfl | old
    · by_contra accessed
      exact spares (by simpa using accessed) (same ▸ doomed)
    · exact sound.spared thread doomed v old same
  aged := sound.aged

theorem Sound.touch (sound : s.Sound cfg) {u : Turn ι τ} {nowUnix : Int} (member : u ∈ s.turns)
    (touch : u.touch = .stamped nowUnix) :
    ({ s.replaceTurn { u with touch := .settled, touched := true } with
      table := s.table.insert u.thread nowUnix } : Host ι τ).Sound cfg := by
  have now := sound.turns u member
  have accessed : u.accessed = true := now.owes (.inl (by simp [touch]))
  have fresh := now.stamped nowUnix touch
  have positive : 0 ≤ cfg.turnTimeoutSec := by
    have : (0 : ℚ) ≤ cfg.turnTimeoutSec := by linarith [now.begun, now.punctual]
    exact_mod_cast this
  have rows {thread : τ} (other : thread ≠ u.thread) :
      (s.table.insert u.thread nowUnix).lookup thread = s.table.lookup thread :=
    AList.lookup_insert_ne other
  refine ⟨fun v among => ?_, sound.listed, fun thread doomed v among same => ?_,
    fun thread doomed lastTouched row => ?_⟩
  · rcases mem_replaceTurn among with rfl | old
    · exact ⟨now.begun, now.punctual, fun _ => accessed, fun _ _ => rfl,
        fun _ stamped => (by cases stamped),
        fun _ => ⟨nowUnix, AList.lookup_insert _, show ⌊u.started⌋ - _ ≤ nowUnix by omega⟩⟩
    · have then' := sound.turns v old
      refine ⟨then'.begun, then'.punctual, then'.owes, then'.settles, then'.stamped, fun touched => ?_⟩
      by_cases same : v.thread = u.thread
      · have := then'.apart now
        exact ⟨nowUnix, by rw [same]; exact AList.lookup_insert _, by omega⟩
      · obtain ⟨lastTouched, row, recent⟩ := then'.recorded touched
        exact ⟨lastTouched, (rows same).trans row, recent⟩
  · rcases mem_replaceTurn among with rfl | old
    · exact absurd (same ▸ doomed) (sound.not_doomed member accessed)
    · exact sound.spared thread doomed v old same
  · have other : thread ≠ u.thread := by
      rintro rfl
      exact sound.not_doomed member accessed doomed
    exact sound.aged thread doomed lastTouched ((rows other).symm.trans row)

theorem Sound.step (sound : s.Sound cfg) (separated : Separated s e) (steps : Steps cfg s e s') :
    s'.Sound cfg := by
  cases steps with
  | start id thread positive =>
      refine ⟨fun u member => ?_, sound.listed, fun thread doomed u member => ?_, sound.aged⟩
      · rcases List.mem_cons.mp member with rfl | old
        · refine ⟨le_rfl, ?_, by simp, by simp, by simp, by simp⟩
          simpa using positive
        · exact sound.turns u old
      · rcases List.mem_cons.mp member with rfl | old
        · exact fun _ => rfl
        · exact sound.spared thread doomed u old
  | access u member touch =>
      have now := sound.turns u member
      apply sound.replaceTurn
      · exact ⟨now.begun, now.punctual, fun _ => rfl, fun _ settled => (by cases settled),
          fun _ stamped => (by cases stamped), now.recorded⟩
      · exact fun _ => separated u member rfl
  | stamp u member touch =>
      have now := sound.turns u member
      have accessed : u.accessed = true := now.owes (.inl (by simp [touch]))
      have spared := sound.not_doomed member accessed
      have stamped (nowUnix : Int) (same : TouchPhase.stamped ⌊s.clock⌋ = .stamped nowUnix) :
          ⌊u.started⌋ ≤ nowUnix := by
        cases same
        exact Int.floor_le_floor now.begun
      apply sound.replaceTurn
      · exact ⟨now.begun, now.punctual, fun _ => accessed, fun _ settled => (by cases settled),
          stamped, now.recorded⟩
      · exact fun _ => spared
  | touch u nowUnix member touch => exact sound.touch member touch
  | finish id =>
      have stays {u : Turn ι τ} (member : u ∈ s.turns.filter fun u => u.id ≠ id) : u ∈ s.turns :=
        (List.mem_filter.mp member).1
      exact ⟨fun u member => sound.turns u (stays member), sound.listed,
        fun thread doomed u member => sound.spared thread doomed u (stays member), sound.aged⟩
  | tick sweep =>
      refine ⟨sound.turns, ?_, fun thread none => (by cases none), fun thread none => (by cases none)⟩
      rintro nowUnix ⟨⟩
      exact le_rfl
  | listStale nowUnix staleIds sweep rows => exact sound.listStale sweep rows separated
  | adeleteThread thread staleIds sweep => exact sound.adeleteThread sweep
  | deleteError thread staleIds sweep =>
      have doomed {other : τ} (member : other ∈ staleIds) : other ∈ s.doomed := by
        simp [Host.doomed, sweep, member]
      exact ⟨sound.turns, fun _ at' => (by cases at'), fun other among => sound.spared other (doomed among),
        fun other among => sound.aged other (doomed among)⟩
  | summary sweep =>
      exact ⟨sound.turns, fun _ at' => (by cases at'), fun thread none => (by cases none),
        fun thread none => (by cases none)⟩
  | advance seconds forward punctual => exact sound.advance forward punctual

end Host

/-- Under every validated configuration, and from every table, the sweeper deletes safely in every
run in which no thread is accessed between its listing and its deletion, and none is listed before
an access of it in flight has reached the table. -/
theorem sweep_deletesSafely (cfg : Config) (clock : ℚ) (table : MetaTable τ)
    (es : List (SweepEvent ι τ))
    (separated : EachStep (Host.step cfg) Separated ({ clock, table } : Host ι τ) es) :
    EachStep (Host.step cfg) (DeletesSafely cfg) ({ clock, table } : Host ι τ) es := by
  have start : ({ clock, table } : Host ι τ).Sound cfg :=
    ⟨fun u none => (by cases none), fun _ at' => (by cases at'), fun _ none => (by cases none),
      fun _ none => (by cases none)⟩
  exact separated.imp (fun s e s' sound separated taken => sound.step separated (Host.step_cases taken))
    (fun s e sound _ => sound.deletesSafely) start

def idleHost : Host Nat String where
  clock := 601
  table := AList.insert "thread" 0 ∅

/-- One turn touches another thread while the sweep is under way, and a turn on the thread itself begins
between its listing and its deletion, but reads it behind that. -/
def busySweep : List (SweepEvent Nat String) :=
  [.start 0 "other", .access 0, .tick, .stamp 0, .listStale ["thread"], .start 1 "thread", .touch 0,
    .adeleteThread, .access 1, .stamp 1, .touch 1, .summary, .finish 0]

theorem sweep_deletesSafely_busy :
    (run (Host.step {}) idleHost busySweep).isSome ∧
      EachStep (Host.step {}) (DeletesSafely {}) idleHost busySweep :=
  ⟨by decide +kernel, sweep_deletesSafely {} 601 _ busySweep (by decide +kernel)⟩

theorem resumed_thread_deleted :
    ¬ EachStep (Host.step {}) (DeletesSafely {}) idleHost
      [.tick, .listStale ["thread"], .start 0 "thread", .access 0, .stamp 0, .touch 0,
        .adeleteThread] := by
  intro each
  have swept : DeletesSafely {} (⟨601, idleHost.table.insert "thread" 601,
      [⟨0, "thread", 601, .settled, true, true⟩], .deleting ["thread"]⟩ : Host Nat String)
      .adeleteThread :=
    EachStep.after (show EachStep _ _ _ ([_, _, _, _, _, _] ++ [_]) from each) rfl
  cases (swept rfl "thread" [] rfl).1 _ List.mem_cons_self rfl

end

end DecisionMaker.Server
