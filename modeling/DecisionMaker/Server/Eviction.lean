import DecisionMaker.Server.Sweeper

namespace DecisionMaker.Server

open Library

section
variable {ι τ : Type*}

structure Turn.Current (cfg : Config) (clock : ℚ) (u : Turn ι τ) : Prop where
  begun : u.started ≤ clock
  punctual : clock - u.started ≤ cfg.turnTimeoutSec
  stamped : ∀ nowUnix, u.touch = .stamped nowUnix → ⌊u.started⌋ ≤ nowUnix

theorem Turn.Current.recent {cfg : Config} {clock : ℚ} {u : Turn ι τ} (current : u.Current cfg clock)
    {nowUnix : Int} (stamped : u.touch = .stamped nowUnix) :
    ⌊clock⌋ - cfg.sweepThresholdSecs ≤ nowUnix := by
  have fresh := current.stamped nowUnix stamped
  have elapsed : ⌊clock⌋ ≤ ⌊u.started⌋ + cfg.turnTimeoutSec := by
    rw [← Int.floor_add_intCast]
    exact Int.floor_le_floor (by linarith [current.punctual])
  have positive : 0 ≤ cfg.turnTimeoutSec := by
    have : (0 : ℚ) ≤ cfg.turnTimeoutSec := by linarith [current.begun, current.punctual]
    exact_mod_cast this
  have := cfg.validateSweepThreshold
  omega

end

namespace Host

section
variable {ι τ : Type*}

def Punctual (cfg : Config) (s : Host ι τ) : Prop := ∀ u ∈ s.turns, u.Current cfg s.clock

variable {cfg : Config} {s s' : Host ι τ} {e : SweepEvent ι τ} {now : Int} {missed : τ → Prop}

section
variable [DecidableEq ι]

theorem Punctual.replaceTurn (punctual : s.Punctual cfg) {u : Turn ι τ} (current : u.Current cfg s.clock) :
    (s.replaceTurn u).Punctual cfg := by
  intro v member
  rcases mem_replaceTurn member with rfl | old
  · exact current
  · exact punctual v old

end

section
variable [DecidableEq τ]

/-- A tick that has read the clock at `now` leaves no row of before, those to come and those it has
missed apart. -/
structure Collecting (cfg : Config) (now : Int) (missed : τ → Prop) (s : Host ι τ) : Prop where
  punctual : s.Punctual cfg
  reading : now ≤ ⌊s.clock⌋
  awake : s.sweep ≠ .sleeping
  listed : ∀ nowUnix, s.sweep = .listing nowUnix → nowUnix = now
  collected : ∀ staleIds, s.sweep = .deleting staleIds → ∀ thread lastTouched,
    s.table.lookup thread = some lastTouched → lastTouched < now - cfg.sweepThresholdSecs →
      thread ∈ staleIds ∨ missed thread

theorem Collecting.same (collecting : s.Collecting cfg now missed) (punctual : s'.Punctual cfg)
    (later : ⌊s.clock⌋ ≤ ⌊s'.clock⌋) (sweep : s'.sweep = s.sweep)
    (rows : ∀ thread lastTouched, s'.table.lookup thread = some lastTouched →
      lastTouched < now - cfg.sweepThresholdSecs → s.table.lookup thread = some lastTouched) :
    s'.Collecting cfg now missed where
  punctual
  reading := collecting.reading.trans later
  awake := sweep ▸ collecting.awake
  listed nowUnix at' := collecting.listed nowUnix (sweep ▸ at')
  collected staleIds at' thread lastTouched row old :=
    collecting.collected staleIds (sweep ▸ at') thread lastTouched (rows thread lastTouched row old) old

end

variable [DecidableEq ι] [DecidableEq τ]

theorem Punctual.step (punctual : s.Punctual cfg) (steps : Steps cfg s e s') : s'.Punctual cfg := by
  cases steps with
  | start id thread positive =>
      intro u member
      rcases List.mem_cons.mp member with rfl | old
      · exact ⟨le_rfl, by simpa using positive, by simp⟩
      · exact punctual u old
  | access u member | touch u _ member =>
      exact Punctual.replaceTurn punctual { punctual u member with stamped := by simp }
  | stamp u member touch =>
      refine Punctual.replaceTurn punctual { punctual u member with stamped := ?_ }
      rintro nowUnix ⟨⟩
      exact Int.floor_le_floor (punctual u member).begun
  | finish id => exact fun u member => punctual u (List.mem_filter.mp member).1
  | tick | listStale | adeleteThread | deleteError | summary => exact punctual
  | advance seconds forward inTime =>
      intro u member
      have current := punctual u member
      exact ⟨by linarith [current.begun], inTime u member, current.stamped⟩

theorem Collecting.touch (collecting : s.Collecting cfg now missed) {u : Turn ι τ} {nowUnix : Int}
    (member : u ∈ s.turns) (touch : u.touch = .stamped nowUnix) :
    ({ s.replaceTurn { u with touch := .settled, touched := true } with
      table := s.table.insert u.thread nowUnix } : Host ι τ).Collecting cfg now missed := by
  refine collecting.same (collecting.punctual.step (.touch u nowUnix member touch)) le_rfl rfl ?_
  intro thread lastTouched row old
  by_cases same : thread = u.thread
  · subst same
    obtain rfl : nowUnix = lastTouched := Option.some.inj ((AList.lookup_insert _).symm.trans row)
    have recent := (collecting.punctual u member).recent touch
    have := collecting.reading
    omega
  · exact (AList.lookup_insert_ne same).symm.trans row

theorem Collecting.step (collecting : s.Collecting cfg now missed) (sameTick : e ≠ .summary)
    (steps : Steps cfg s e s') :
    s'.Collecting cfg now fun thread => missed thread ∨
      e = .deleteError ∧ ∃ staleIds, s.sweep = .deleting (thread :: staleIds) := by
  have punctual := collecting.punctual.step steps
  have keeps : s.Collecting cfg now fun thread => missed thread ∨
      e = .deleteError ∧ ∃ staleIds, s.sweep = .deleting (thread :: staleIds) :=
    { collecting with
      collected := fun staleIds at' thread lastTouched row old =>
        (collecting.collected staleIds at' thread lastTouched row old).imp_right .inl }
  cases steps with
  | start | access | stamp | finish => exact keeps.same punctual le_rfl rfl fun _ _ row _ => row
  | touch u nowUnix member touch => exact keeps.touch member touch
  | tick sweep => exact absurd sweep collecting.awake
  | listStale nowUnix staleIds sweep rows =>
      obtain rfl := collecting.listed nowUnix sweep
      refine ⟨punctual, collecting.reading, by simp, by simp, ?_⟩
      rintro _ ⟨⟩ thread lastTouched row old
      exact .inl (rows.symm.subset (MetaTable.mem_listStale.mpr ⟨lastTouched, row, old⟩))
  | adeleteThread thread staleIds sweep =>
      refine ⟨punctual, collecting.reading, by simp, by simp, ?_⟩
      rintro _ ⟨⟩ other lastTouched row old
      have apart : other ≠ thread := by
        rintro rfl
        rw [AList.lookup_erase] at row
        cases row
      have former := (AList.lookup_erase_ne apart).symm.trans row
      rcases keeps.collected _ sweep other lastTouched former old with doomed | gone
      · exact .inl ((List.mem_cons.mp doomed).resolve_left apart)
      · exact .inr gone
  | deleteError thread staleIds sweep =>
      refine ⟨punctual, collecting.reading, by simp, by simp, ?_⟩
      rintro _ ⟨⟩ other lastTouched row old
      rcases keeps.collected _ sweep other lastTouched row old with doomed | gone
      · rcases List.mem_cons.mp doomed with rfl | next
        · exact .inr (.inr ⟨rfl, staleIds, sweep⟩)
        · exact .inl next
      · exact .inr gone
  | summary => exact absurd rfl sameTick
  | advance seconds forward =>
      exact keeps.same punctual (Int.floor_le_floor (le_add_of_nonneg_right forward)) rfl fun _ _ row _ => row

inductive DeletionRaised (cfg : Config) (thread : τ) : Host ι τ → List (SweepEvent ι τ) → Prop
  | here {s : Host ι τ} {staleIds : List τ} {es : List (SweepEvent ι τ)}
      (deletes : s.sweep = .deleting (thread :: staleIds)) : DeletionRaised cfg thread s (.deleteError :: es)
  | later {s s' : Host ι τ} {e : SweepEvent ι τ} {es : List (SweepEvent ι τ)}
      (taken : s.step cfg e = some s') (raised : DeletionRaised cfg thread s' es) :
      DeletionRaised cfg thread s (e :: es)

theorem Collecting.run {es : List (SweepEvent ι τ)} (collecting : s.Collecting cfg now missed)
    (sameTick : .summary ∉ es) (taken : run (Host.step cfg) s es = some s') :
    s'.Collecting cfg now fun thread => missed thread ∨ DeletionRaised cfg thread s es := by
  induction es generalizing s missed with
  | nil =>
      cases taken
      exact { collecting with
        collected := fun staleIds at' thread lastTouched row old =>
          (collecting.collected staleIds at' thread lastTouched row old).imp_right .inl }
  | cons e es ih =>
      obtain ⟨t, first, rest⟩ := (run_cons _).mp taken
      obtain ⟨here, later⟩ := not_or.mp (List.mem_cons.not.mp sameTick)
      have final := ih (collecting.step (Ne.symm here) (step_cases first)) later rest
      refine { final with collected := fun staleIds at' thread lastTouched row old => ?_ }
      rcases final.collected staleIds at' thread lastTouched row old with
        doomed | (before | ⟨rfl, doomed, sweep⟩) | raised
      · exact .inl doomed
      · exact .inr (.inl before)
      · exact .inr (.inr (.here sweep))
      · exact .inr (.inr (.later first raised))

theorem DeletionRaised.mem {thread : τ} {es : List (SweepEvent ι τ)} (raised : DeletionRaised cfg thread s es) :
    .deleteError ∈ es := by
  induction raised with
  | here => exact List.mem_cons_self
  | later _ _ ih => exact List.mem_cons_of_mem _ ih

/-- No thread outlives a tick that finds it idle for longer than the threshold, unless its deletion
raises: whatever turns run meanwhile, at the end of the tick every row of the table is of a touch within
the threshold before the tick. -/
theorem tick_collects {clock : ℚ} {table : MetaTable τ} {before es : List (SweepEvent ι τ)}
    (reached : run (Host.step cfg) { clock, table } before = some s)
    (ticked : run (Host.step cfg) s (.tick :: es) = some s') (sameTick : .summary ∉ es)
    (finished : s'.sweep = .deleting []) {thread : τ} {lastTouched : Int}
    (row : s'.table.lookup thread = some lastTouched) (kept : ¬ DeletionRaised cfg thread s (.tick :: es)) :
    ⌊s.clock⌋ - cfg.sweepThresholdSecs ≤ lastTouched := by
  have punctual : s.Punctual cfg :=
    run_invariant (fun _ _ _ punctual taken => Punctual.step punctual (step_cases taken)) (by simp [Punctual])
      reached
  obtain ⟨t, first, rest⟩ := (run_cons _).mp ticked
  have collecting : t.Collecting cfg ⌊s.clock⌋ fun _ => False := by
    cases step_cases first with
    | tick sweep => exact ⟨punctual, le_rfl, by simp, by simp, by simp⟩
  have final := collecting.run sameTick rest
  by_contra old
  rcases final.collected [] finished thread lastTouched row (not_le.mp old) with doomed | none | raised
  · cases doomed
  · exact none
  · exact kept (.later first raised)

end

def staleHost : Host Nat String where
  clock := 601
  table := AList.insert "old" 0 (AList.singleton "resumed" 0)

/-- A turn reads one of the stale threads behind the listing and touches it only when it has been deleted. -/
def resumedTick : List (SweepEvent Nat String) :=
  [.listStale ["resumed", "old"], .start 0 "resumed", .access 0, .stamp 0, .advance 2, .adeleteThread, .touch 0,
    .adeleteThread, .finish 0]

theorem tick_collects_resumed : ∃ s', run (Host.step {}) staleHost (.tick :: resumedTick) = some s' ∧
    s'.table.lookup "old" = none ∧ s'.table.lookup "resumed" = some 601 ∧ ⌊(601 : ℚ)⌋ - 600 ≤ (601 : Int) := by
  have swept : (run (Host.step {}) staleHost (.tick :: resumedTick)).map (fun s =>
      (s.table.lookup "old", s.table.lookup "resumed", s.sweep)) = some (none, some 601, .deleting []) := by
    decide +kernel
  obtain ⟨s', taken, ended⟩ := Option.map_eq_some_iff.mp swept
  simp only [Prod.mk.injEq] at ended
  obtain ⟨old, row, finished⟩ := ended
  have reached : run (Host.step {}) staleHost [] = some staleHost := rfl
  have noRaise : ¬ DeletionRaised {} "resumed" staleHost (.tick :: resumedTick) :=
    fun raised => by simpa [resumedTick] using raised.mem
  exact ⟨s', taken, old, row, tick_collects reached taken (by simp [resumedTick]) finished row noRaise⟩

end Host

end DecisionMaker.Server
