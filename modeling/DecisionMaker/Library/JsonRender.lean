import DecisionMaker.Library.Builtins

namespace DecisionMaker.Library.Json

open Library

def isFinite (x : BitVec 64) : Bool := !(Binary64.isNaN x || Binary64.isInfinite x)

mutual

/-- What `json.dumps` raises with `allow_nan=False` and without `ensure_ascii`, where `nesting` more
containers may be entered. -/
def dumpStrict (nesting : Nat) : Json → Except PyException Unit
  | .null | .bool _ | .str _ => .ok ()
  | .int n => match intRepr n with
    | none => .error .valueError
    | some _ => .ok ()
  | .float x => if isFinite x then .ok () else .error .valueError
  | .array items => match nesting with
    | 0 => .error .recursionError
    | nesting + 1 => dumpStrictItems nesting items
  | .object members => match nesting with
    | 0 => .error .recursionError
    | nesting + 1 => dumpStrictMembers nesting members

def dumpStrictItems (nesting : Nat) : List Json → Except PyException Unit
  | [] => .ok ()
  | item :: items => do
      dumpStrict nesting item
      dumpStrictItems nesting items

def dumpStrictMembers (nesting : Nat) : List (Str × Json) → Except PyException Unit
  | [] => .ok ()
  | member :: members => do
      dumpStrictMember nesting member
      dumpStrictMembers nesting members

def dumpStrictMember (nesting : Nat) : Str × Json → Except PyException Unit
  | (_, value) => dumpStrict nesting value

end

mutual

def strings : Json → List Str
  | .null | .bool _ | .int _ | .float _ => []
  | .str s => [s]
  | .array items => stringsItems items
  | .object members => stringsMembers members

def stringsItems : List Json → List Str
  | [] => []
  | item :: items => strings item ++ stringsItems items

def stringsMembers : List (Str × Json) → List Str
  | [] => []
  | member :: members => stringsMember member ++ stringsMembers members

def stringsMember : Str × Json → List Str
  | (key, value) => key :: strings value

end

def render (nesting : Nat) (value : Json) : Except PyException Unit := do
  dumpStrict nesting value
  if (strings value).any fun s => s.any CodePoint.isSurrogate then .error .unicodeEncodeError

/-- No number out of range, no lone surrogate, and at most `nesting` containers around each other. -/
inductive Renders : Nat → Json → Prop
  | null (nesting : Nat) : Renders nesting .null
  | bool (nesting : Nat) (b : Bool) : Renders nesting (.bool b)
  | int (nesting : Nat) {n : Int} (short : intRepr n ≠ none) : Renders nesting (.int n)
  | float (nesting : Nat) {x : BitVec 64} (finite : isFinite x = true) : Renders nesting (.float x)
  | str (nesting : Nat) {s : Str} (wellFormed : s.WellFormed) : Renders nesting (.str s)
  | array {nesting : Nat} {items : List Json} (all : ∀ item ∈ items, Renders nesting item) :
      Renders (nesting + 1) (.array items)
  | object {nesting : Nat} {members : List (Str × Json)} (keys : ∀ member ∈ members, member.1.WellFormed)
      (all : ∀ member ∈ members, Renders nesting member.2) : Renders (nesting + 1) (.object members)

section
variable {nesting : Nat}

theorem dumpStrictItems_ok_iff {items : List Json} :
    dumpStrictItems nesting items = .ok () ↔ ∀ item ∈ items, dumpStrict nesting item = .ok () := by
  induction items with
  | nil => simp [dumpStrictItems]
  | cons item items ih =>
      rw [dumpStrictItems, List.forall_mem_cons, ← ih]
      cases dumpStrict nesting item <;> simp [bind, Except.bind]

theorem dumpStrictMembers_ok_iff {members : List (Str × Json)} :
    dumpStrictMembers nesting members = .ok () ↔ ∀ member ∈ members, dumpStrict nesting member.2 = .ok () := by
  induction members with
  | nil => simp [dumpStrictMembers]
  | cons member members ih =>
      obtain ⟨key, value⟩ := member
      rw [dumpStrictMembers, List.forall_mem_cons, ← ih, dumpStrictMember]
      cases dumpStrict nesting value <;> simp [bind, Except.bind]

theorem mem_stringsItems {items : List Json} {s : Str} :
    s ∈ stringsItems items ↔ ∃ item ∈ items, s ∈ strings item := by
  induction items with
  | nil => simp [stringsItems]
  | cons item items ih => rw [stringsItems, List.mem_append, ih, List.exists_mem_cons_iff]

theorem mem_stringsMembers {members : List (Str × Json)} {s : Str} :
    s ∈ stringsMembers members ↔ ∃ member ∈ members, s = member.1 ∨ s ∈ strings member.2 := by
  induction members with
  | nil => simp [stringsMembers]
  | cons member members ih =>
      obtain ⟨key, value⟩ := member
      rw [stringsMembers, List.mem_append, ih, List.exists_mem_cons_iff, stringsMember, List.mem_cons]

theorem render_eq_ok {value : Json} : render nesting value = .ok () ↔
    dumpStrict nesting value = .ok () ∧ ∀ s ∈ strings value, s.WellFormed := by
  unfold render
  cases dumpStrict nesting value with
  | error e => simp [bind, Except.bind]
  | ok _ =>
      by_cases split : (strings value).any (fun s => s.any CodePoint.isSurrogate) = true
      · simp only [bind, Except.bind, if_pos split, reduceCtorEq, true_and, false_iff]
        obtain ⟨s, member, lone⟩ := List.any_eq_true.mp split
        obtain ⟨c, inside, surrogate⟩ := List.any_eq_true.mp lone
        intro wellFormed
        rw [wellFormed s member c inside] at surrogate
        cases surrogate
      · simp only [bind, Except.bind, if_neg split, pure, Except.pure, true_and, true_iff]
        intro s member c inside
        rw [← Bool.not_eq_true]
        exact fun surrogate =>
          split (List.any_eq_true.mpr ⟨s, member, List.any_eq_true.mpr ⟨c, inside, surrogate⟩⟩)

theorem render_array {items : List Json} : render nesting (.array items) = .ok () ↔
    ∃ inner, nesting = inner + 1 ∧ ∀ item ∈ items, render inner item = .ok () := by
  simp only [render_eq_ok]
  cases nesting with
  | zero => simp [dumpStrict]
  | succ inner =>
      rw [dumpStrict, dumpStrictItems_ok_iff, strings]
      constructor
      · rintro ⟨dumped, formed⟩
        exact ⟨inner, rfl, fun item member =>
          ⟨dumped item member, fun s inside => formed s (mem_stringsItems.mpr ⟨item, member, inside⟩)⟩⟩
      · rintro ⟨_, ⟨⟩, each⟩
        refine ⟨fun item member => (each item member).1, fun s inside => ?_⟩
        obtain ⟨item, member, inside⟩ := mem_stringsItems.mp inside
        exact (each item member).2 s inside

theorem render_object {members : List (Str × Json)} : render nesting (.object members) = .ok () ↔
    ∃ inner, nesting = inner + 1 ∧ ∀ member ∈ members, member.1.WellFormed ∧ render inner member.2 = .ok () := by
  simp only [render_eq_ok]
  cases nesting with
  | zero => simp [dumpStrict]
  | succ inner =>
      rw [dumpStrict, dumpStrictMembers_ok_iff, strings]
      constructor
      · rintro ⟨dumped, formed⟩
        exact ⟨inner, rfl, fun member inside =>
          ⟨formed _ (mem_stringsMembers.mpr ⟨member, inside, .inl rfl⟩), dumped member inside,
            fun s found => formed s (mem_stringsMembers.mpr ⟨member, inside, .inr found⟩)⟩⟩
      · rintro ⟨_, ⟨⟩, each⟩
        refine ⟨fun member inside => (each member inside).2.1, fun s found => ?_⟩
        obtain ⟨member, inside, rfl | found⟩ := mem_stringsMembers.mp found
        · exact (each member inside).1
        · exact (each member inside).2.2 s found

end

theorem Renders.render {nesting : Nat} {value : Json} (renders : Renders nesting value) :
    render nesting value = .ok () := by
  induction renders with
  | null | bool => exact render_eq_ok.mpr ⟨by rw [dumpStrict], by simp [strings]⟩
  | @int nesting n short =>
      obtain ⟨text, written⟩ := Option.ne_none_iff_exists'.mp short
      exact render_eq_ok.mpr ⟨by rw [dumpStrict, written], by simp [strings]⟩
  | float nesting finite => exact render_eq_ok.mpr ⟨by rw [dumpStrict, if_pos finite], by simp [strings]⟩
  | str nesting wellFormed => exact render_eq_ok.mpr ⟨by rw [dumpStrict], by simpa [strings] using wellFormed⟩
  | array all ih => exact render_array.mpr ⟨_, rfl, ih⟩
  | object keys all ih => exact render_object.mpr ⟨_, rfl, fun member inside => ⟨keys member inside, ih member inside⟩⟩

mutual

theorem renders_of_render (nesting : Nat) : ∀ value : Json, render nesting value = .ok () → Renders nesting value
  | .null, _ => .null nesting
  | .bool b, _ => .bool nesting b
  | .int n, rendered => by
      refine .int nesting fun long => ?_
      have dumped := (render_eq_ok.mp rendered).1
      rw [dumpStrict, long] at dumped
      cases dumped
  | .float x, rendered => by
      have dumped := (render_eq_ok.mp rendered).1
      rw [dumpStrict] at dumped
      split_ifs at dumped with finite
      exact .float nesting finite
  | .str s, rendered => .str nesting ((render_eq_ok.mp rendered).2 s (by simp [strings]))
  | .array items, rendered => by
      obtain ⟨inner, rfl, each⟩ := render_array.mp rendered
      exact .array (renders_of_renderItems inner items each)
  | .object members, rendered => by
      obtain ⟨inner, rfl, each⟩ := render_object.mp rendered
      exact .object (fun member inside => (each member inside).1)
        (renders_of_renderMembers inner members fun member inside => (each member inside).2)

theorem renders_of_renderItems (nesting : Nat) : ∀ items : List Json,
    (∀ item ∈ items, render nesting item = .ok ()) → ∀ item ∈ items, Renders nesting item
  | [], _ => by simp
  | item :: items, rendered => by
      obtain ⟨first, rest⟩ := List.forall_mem_cons.mp rendered
      exact List.forall_mem_cons.mpr
        ⟨renders_of_render nesting item first, renders_of_renderItems nesting items rest⟩

theorem renders_of_renderMembers (nesting : Nat) : ∀ members : List (Str × Json),
    (∀ member ∈ members, render nesting member.2 = .ok ()) → ∀ member ∈ members, Renders nesting member.2
  | [], _ => by simp
  | member :: members, rendered => by
      obtain ⟨first, rest⟩ := List.forall_mem_cons.mp rendered
      exact List.forall_mem_cons.mpr
        ⟨renders_of_renderMember nesting member first, renders_of_renderMembers nesting members rest⟩

theorem renders_of_renderMember (nesting : Nat) : ∀ member : Str × Json,
    render nesting member.2 = .ok () → Renders nesting member.2
  | (_, value), rendered => renders_of_render nesting value rendered

end

theorem render_ok_iff {nesting : Nat} {value : Json} : render nesting value = .ok () ↔ Renders nesting value :=
  ⟨renders_of_render nesting value, Renders.render⟩

theorem Renders.mono {nesting more : Nat} {value : Json} (renders : Renders nesting value)
    (room : nesting ≤ more) : Renders more value := by
  induction renders generalizing more with
  | null nesting => exact .null more
  | bool nesting b => exact .bool more b
  | int nesting short => exact .int more short
  | float nesting finite => exact .float more finite
  | str nesting wellFormed => exact .str more wellFormed
  | array all ih =>
      obtain ⟨inner, rfl⟩ := Nat.exists_eq_add_of_lt room
      exact .array fun item member => ih item member (by omega)
  | object keys all ih =>
      obtain ⟨inner, rfl⟩ := Nat.exists_eq_add_of_lt room
      exact .object keys fun member inside => ih member inside (by omega)

end DecisionMaker.Library.Json
