import DecisionMaker.Library.Pattern

namespace DecisionMaker.Library

variable {α : Type} {Tag Opens Closes : List α → Prop} {c d : α}

def NoTagStarts (Tag : List α → Prop) (s t : List α) : Prop :=
  ∀ front back tag, s = front ++ back → back ≠ [] → Tag tag → ¬tag <+: back ++ t

def Ended (c : α) (Tag : List α → Prop) : Prop := ∀ tag, Tag tag → ∃ inner, tag = inner ++ [c] ∧ c ∉ inner

inductive Blocks (Opens Closes : List α → Prop) : List α → List (List α) → Prop
  | unopened {s : List α} (none : ∀ tag, Opens tag → ¬tag <:+: s) : Blocks Opens Closes s []
  | unclosed {before opening s : List α} (first : NoTagStarts Opens before (opening ++ s))
      (opens : Opens opening) (none : ∀ tag, Closes tag → ¬tag <:+: s) :
      Blocks Opens Closes (before ++ (opening ++ s)) []
  | block {before opening content closing rest : List α} {contents : List (List α)}
      (first : NoTagStarts Opens before (opening ++ (content ++ (closing ++ rest))))
      (opens : Opens opening) (nearest : NoTagStarts Closes content (closing ++ rest))
      (closes : Closes closing) (others : Blocks Opens Closes rest contents) :
      Blocks Opens Closes (before ++ (opening ++ (content ++ (closing ++ rest)))) (content :: contents)

theorem noTagStarts_nil (t : List α) : NoTagStarts Tag [] t := by
  intro front back tag split some
  exact absurd (List.append_eq_nil_iff.mp split.symm).2 some

theorem NoTagStarts.cons {a : α} {s t : List α} (none : ∀ tag, Tag tag → ¬tag <+: a :: (s ++ t))
    (first : NoTagStarts Tag s t) : NoTagStarts Tag (a :: s) t := by
  intro front back tag split some isTag
  cases front with
  | nil =>
      cases split
      exact none tag isTag
  | cons b front =>
      obtain ⟨-, rest⟩ := List.cons.inj split
      exact first front back tag rest some isTag

theorem NoTagStarts.exists_append {before t front tag rest : List α} (first : NoTagStarts Tag before t)
    (isTag : Tag tag) (same : before ++ t = front ++ (tag ++ rest)) :
    ∃ more, front = before ++ more ∧ t = more ++ (tag ++ rest) := by
  rcases List.append_eq_append_iff.mp same with ⟨more, isFront, behind⟩ | ⟨more, isBefore, behind⟩
  · exact ⟨more, isFront, behind⟩
  · by_cases some : more = []
    · subst some
      exact ⟨[], by rw [isBefore, List.append_nil, List.append_nil], behind.symm⟩
    · exact absurd ⟨rest, behind⟩ (first front more tag isBefore some isTag)

theorem NoTagStarts.not_infix {s t tag : List α} (ended : Ended c Tag) (first : NoTagStarts Tag s t)
    (isTag : Tag tag) : ¬tag <:+: s := by
  rintro ⟨front, back, same⟩
  obtain ⟨inner, rfl, -⟩ := ended tag isTag
  apply first front (inner ++ [c] ++ back) _ (by rw [← same, List.append_assoc]) (by simp) isTag
  exact ⟨back ++ t, by rw [List.append_assoc _ back]⟩

theorem Ended.unique {tag other rest otherRest : List α} (ended : Ended c Tag) (isTag : Tag tag)
    (isTag' : Tag other) (same : tag ++ rest = other ++ otherRest) : tag = other ∧ rest = otherRest := by
  obtain ⟨inner, rfl, absent⟩ := ended tag isTag
  obtain ⟨inner', rfl, absent'⟩ := ended other isTag'
  simp only [List.append_assoc, List.singleton_append] at same
  obtain ⟨rfl, rfl⟩ := append_cons_unique same absent absent'
  exact ⟨rfl, rfl⟩

theorem NoTagStarts.unique {before tag rest before' tag' rest' : List α} (ended : Ended c Tag)
    (first : NoTagStarts Tag before (tag ++ rest)) (isTag : Tag tag)
    (first' : NoTagStarts Tag before' (tag' ++ rest')) (isTag' : Tag tag')
    (same : before ++ (tag ++ rest) = before' ++ (tag' ++ rest')) :
    before = before' ∧ tag = tag' ∧ rest = rest' := by
  obtain ⟨more, longer, behind⟩ := first.exists_append isTag' same
  obtain ⟨more', longer', -⟩ := first'.exists_append isTag same.symm
  have none : more = [] := by
    have lengths := congrArg List.length longer
    rw [longer'] at lengths
    simp only [List.length_append] at lengths
    exact List.length_eq_zero_iff.mp (by omega)
  subst none
  rw [List.append_nil] at longer
  exact ⟨longer.symm, ended.unique isTag isTag' behind⟩

theorem Ended.closing_behind {opening s front other content closing back : List α} (ended : Ended c Opens)
    (opens : Opens opening) (opens' : Opens other)
    (same : opening ++ s = front ++ (other ++ (content ++ (closing ++ back)))) : closing <:+: s := by
  obtain ⟨inner, rfl, absent⟩ := ended opening opens
  obtain ⟨inner', rfl, -⟩ := ended other opens'
  have split : inner ++ c :: s = front ++ inner' ++ c :: (content ++ (closing ++ back)) := by
    simpa only [List.append_assoc, List.singleton_append] using same
  obtain ⟨more, -, behind⟩ := exists_append_of_notMem split absent
  have inside : closing <:+: content ++ (closing ++ back) := ⟨content, back, by rw [List.append_assoc]⟩
  cases more with
  | nil =>
      obtain ⟨-, rfl⟩ := List.cons.inj behind
      exact inside
  | cons a more =>
      obtain ⟨-, rfl⟩ := List.cons.inj behind
      exact inside.trans ⟨more ++ [c], [], by simp⟩

namespace Blocks

variable {s : List α} {contents : List (List α)}

theorem not_closes (ended : Ended d Closes) (blocks : Blocks Opens Closes s contents) :
    ∀ content ∈ contents, ∀ tag, Closes tag → ¬tag <:+: content := by
  induction blocks with
  | unopened none => exact fun _ member => absurd member List.not_mem_nil
  | unclosed first opens none => exact fun _ member => absurd member List.not_mem_nil
  | block first opens nearest closes others ih =>
      intro content member tag isTag
      rcases List.mem_cons.mp member with same | later
      · subst same
        exact nearest.not_infix ended isTag
      · exact ih content later tag isTag

theorem isInfix (blocks : Blocks Opens Closes s contents) : ∀ content ∈ contents, content <:+: s := by
  induction blocks with
  | unopened none => exact fun _ member => absurd member List.not_mem_nil
  | unclosed first opens none => exact fun _ member => absurd member List.not_mem_nil
  | @block before opening content closing rest contents first opens nearest closes others ih =>
      intro other member
      rcases List.mem_cons.mp member with same | later
      · subst same
        exact ⟨before ++ opening, closing ++ rest, by simp only [List.append_assoc]⟩
      · have behind : rest <:+: before ++ (opening ++ (content ++ (closing ++ rest))) :=
          ⟨before ++ opening ++ content ++ closing, [], by simp only [List.append_assoc, List.append_nil]⟩
        exact (ih other later).trans behind

theorem eq_nil_iff (ended : Ended c Opens) (blocks : Blocks Opens Closes s contents) :
    contents = [] ↔ ∀ opening content closing, Opens opening → Closes closing →
      ¬opening ++ (content ++ closing) <:+: s := by
  cases blocks with
  | unopened none =>
      refine iff_of_true rfl fun opening content closing opens _ inside => none opening opens ?_
      exact (List.prefix_append opening _).isInfix.trans inside
  | unclosed first opens none =>
      refine iff_of_true rfl ?_
      rintro other content closing opens' closes ⟨front, back, same⟩
      have split := same.symm.trans (by simp only [List.append_assoc] : _ =
        front ++ (other ++ (content ++ (closing ++ back))))
      obtain ⟨more, -, behind⟩ := first.exists_append opens' split
      exact none closing closes (ended.closing_behind opens opens' behind)
  | @block before opening content closing rest _ first opens nearest closes others =>
      refine iff_of_false (List.cons_ne_nil _ _) fun none => none opening content closing opens closes ?_
      exact ⟨before, rest, by simp only [List.append_assoc]⟩

theorem unique (endedOpens : Ended c Opens) (endedCloses : Ended d Closes) {contents' : List (List α)}
    (blocks : Blocks Opens Closes s contents) (blocks' : Blocks Opens Closes s contents') :
    contents = contents' := by
  induction blocks generalizing contents' with
  | unopened none =>
      exact ((eq_nil_iff endedOpens blocks').mpr ((eq_nil_iff endedOpens (.unopened none)).mp rfl)).symm
  | unclosed first opens none =>
      have absent := (eq_nil_iff endedOpens (.unclosed first opens none)).mp rfl
      exact ((eq_nil_iff endedOpens blocks').mpr absent).symm
  | @block before opening content closing rest contents first opens nearest closes others ih =>
      have found := (eq_nil_iff endedOpens (.block first opens nearest closes others)).not.mp
        (List.cons_ne_nil _ _)
      have some := (eq_nil_iff endedOpens blocks').not.mpr found
      generalize whole : before ++ (opening ++ (content ++ (closing ++ rest))) = text at blocks'
      cases blocks' with
      | unopened none => exact absurd rfl some
      | unclosed first' opens' none => exact absurd rfl some
      | block first' opens' nearest' closes' others' =>
          obtain ⟨-, -, behind⟩ := first.unique endedOpens opens first' opens' whole
          obtain ⟨rfl, -, rfl⟩ := nearest.unique endedCloses closes nearest' closes' behind
          rw [ih others']

theorem cons {a : α} (none : ∀ tag, Opens tag → ¬tag <+: a :: s) (blocks : Blocks Opens Closes s contents) :
    Blocks Opens Closes (a :: s) contents := by
  cases blocks with
  | unopened absent =>
      apply Blocks.unopened
      intro tag isTag inside
      rcases List.infix_cons_iff.mp inside with isPrefix | later
      · exact none tag isTag isPrefix
      · exact absent tag isTag later
  | unclosed first opens absent => exact .unclosed (first.cons none) opens absent
  | block first opens nearest closes others => exact .block (first.cons none) opens nearest closes others

end Blocks

namespace Pattern

variable {β γ : Type}

def between (opening : Pattern α β) (closing : Pattern α γ) : Pattern α (List α) := do
  let _ ← opening
  let content ← few
  let _ ← closing
  pure content

def Spells (m : Pattern α β) (Tag : List α → Prop) : Prop :=
  ∀ s rest, (∃ b, (b, rest) ∈ m s) ↔ ∃ tag, Tag tag ∧ s = tag ++ rest

variable {opening : Pattern α β} {closing : Pattern α γ} {s rest content : List α}

theorem Spells.eq_nil_iff {m : Pattern α β} (spells : Spells m Tag) :
    m s = [] ↔ ∀ tag, Tag tag → ¬tag <+: s := by
  rw [List.eq_nil_iff_forall_not_mem]
  constructor
  · rintro none tag isTag ⟨rest, same⟩
    obtain ⟨b, member⟩ := (spells s rest).mpr ⟨tag, isTag, same.symm⟩
    exact none _ member
  · rintro none ⟨b, rest⟩ member
    obtain ⟨tag, isTag, same⟩ := (spells s rest).mp ⟨b, member⟩
    exact none tag isTag ⟨rest, same.symm⟩

theorem mem_between (opens : Spells opening Opens) (closes : Spells closing Closes) :
    (content, rest) ∈ between opening closing s ↔ ∃ front back, Opens front ∧ Closes back ∧
      s = front ++ (content ++ (back ++ rest)) := by
  simp only [between, mem_bind, mem_few, mem_pure]
  constructor
  · rintro ⟨b, _, member, _, mid, rfl, b', _, member', rfl, rfl⟩
    obtain ⟨front, isFront, same⟩ := (opens _ _).mp ⟨b, member⟩
    obtain ⟨back, isBack, rfl⟩ := (closes _ _).mp ⟨b', member'⟩
    exact ⟨front, back, isFront, isBack, same⟩
  · rintro ⟨front, back, isFront, isBack, same⟩
    obtain ⟨b, member⟩ := (opens s _).mpr ⟨front, isFront, same⟩
    obtain ⟨b', member'⟩ := (closes _ rest).mpr ⟨back, isBack, rfl⟩
    exact ⟨b, _, member, content, _, rfl, b', _, member', rfl, rfl⟩

theorem of_head?_between (ended : Ended c Opens) (opens : Spells opening Opens)
    (closes : Spells closing Closes) (first : (between opening closing s).head? = some (content, rest)) :
    ∃ front back, Opens front ∧ Closes back ∧ s = front ++ (content ++ (back ++ rest)) ∧
      NoTagStarts Closes content (back ++ rest) := by
  obtain ⟨front, back, isFront, isBack, rfl⟩ := (mem_between opens closes).mp (List.mem_of_head? first)
  refine ⟨front, back, isFront, isBack, rfl, ?_⟩
  have found : opening (front ++ (content ++ (back ++ rest))) ≠ [] := by
    obtain ⟨b, member⟩ := (opens _ _).mpr ⟨front, isFront, rfl⟩
    exact List.ne_nil_of_mem member
  have behind : ∀ r ∈ opening (front ++ (content ++ (back ++ rest))), r.2 = content ++ (back ++ rest) := by
    rintro ⟨b, mid⟩ member
    obtain ⟨other, isOther, same⟩ := (opens _ mid).mp ⟨b, member⟩
    exact (ended.unique isFront isOther same).2.symm
  rw [between, head?_bind_const found behind] at first
  obtain ⟨taken, mid, -, ends, shortest⟩ := of_head?_few_bind first
  have isContent : taken = content := by
    have member := List.mem_of_head? ends
    simp only [mem_bind, mem_pure] at member
    obtain ⟨-, -, -, same, -⟩ := member
    exact same.symm
  subst isContent
  -- the lazy match would have ended at a tag that starts inside
  rintro inner outer tag rfl some isTag ⟨more, same⟩
  have shorter : inner.length < (inner ++ outer).length := by
    rw [List.length_append]
    exact Nat.lt_add_of_pos_right (List.length_pos_iff.mpr some)
  have none := shortest inner (outer ++ (back ++ rest)) (List.append_assoc _ _ _) shorter
  obtain ⟨b, member⟩ := (closes _ more).mpr ⟨tag, isTag, same.symm⟩
  apply List.not_mem_nil (a := (inner, more))
  rw [← none, mem_bind]
  exact ⟨b, more, member, mem_pure.mpr ⟨rfl, rfl⟩⟩

theorem findall_eq_nil_of_unclosed (ended : Ended c Opens) (opens : Spells opening Opens)
    (closes : Spells closing Closes) {a : α} {front : List α} (isFront : Opens front)
    (same : a :: s = front ++ rest) (none : ∀ tag, Closes tag → ¬tag <:+: rest) :
    findall (between opening closing) s = [] := by
  apply findall_eq_nil
  rintro t ⟨skipped, rfl⟩
  rw [List.eq_nil_iff_forall_not_mem]
  rintro ⟨content, after⟩ member
  obtain ⟨other, back, isOther, isBack, rfl⟩ := (mem_between opens closes).mp member
  have split : front ++ rest = (a :: skipped) ++ (other ++ (content ++ (back ++ after))) := same.symm
  exact none back isBack (ended.closing_behind isFront isOther split)

theorem consumes_between (ended : Ended c Opens) (opens : Spells opening Opens)
    (closes : Spells closing Closes) : Consumes (between opening closing) := by
  intro s content rest member
  obtain ⟨front, back, isFront, -, rfl⟩ := (mem_between opens closes).mp member
  obtain ⟨inner, rfl, -⟩ := ended front isFront
  exact ⟨inner ++ [c] ++ (content ++ back), by simp, by simp only [List.append_assoc]⟩

theorem blocks_findall (ended : Ended c Opens) (opens : Spells opening Opens)
    (closes : Spells closing Closes) (s : List α) :
    Blocks Opens Closes s (findall (between opening closing) s) := by
  induction s using pieces_induction (consumes_between ended opens closes) with
  | nil =>
      apply Blocks.unopened
      intro tag isTag inside
      obtain ⟨inner, rfl, -⟩ := ended tag isTag
      simp at inside
  | kept a s none ih =>
      rw [findall_cons_of_eq_nil none]
      by_cases opened : ∃ front rest, Opens front ∧ a :: s = front ++ rest
      · obtain ⟨front, rest, isFront, same⟩ := opened
        have absent : ∀ tag, Closes tag → ¬tag <:+: rest := by
          rintro back isBack ⟨content, after, rfl⟩
          have member := (mem_between opens closes).mpr
            ⟨front, back, isFront, isBack, same.trans (by rw [List.append_assoc content])⟩
          rw [none] at member
          cases member
        have here : Blocks Opens Closes ([] ++ (front ++ rest)) [] := .unclosed (noTagStarts_nil _) isFront absent
        rw [findall_eq_nil_of_unclosed ended opens closes isFront same absent, same]
        exact here
      · apply ih.cons
        rintro tag isTag ⟨rest, same⟩
        exact opened ⟨tag, rest, isTag, same.symm⟩
  | matched text value rest taken first ih =>
      obtain ⟨front, back, isFront, isBack, same, nearest⟩ := of_head?_between ended opens closes first
      have here : Blocks Opens Closes ([] ++ (front ++ (value ++ (back ++ rest))))
          (value :: findall (between opening closing) rest) :=
        .block (noTagStarts_nil _) isFront nearest isBack ih
      rw [findall_append taken first, same]
      exact here

end Pattern

end DecisionMaker.Library
