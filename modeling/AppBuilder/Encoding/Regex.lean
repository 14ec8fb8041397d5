import Mathlib.Data.List.Basic

/-! Regular expressions as they are matched by backtracking: all ways to match from a position, the
preferred one first. A position is the text that remains, and whether a word character is before
it. -/
namespace AppBuilder.Encoding

inductive Regex (α : Type) where
  | empty
  | one (accepts : α → Bool)
  | seq (first second : Regex α)
  | alt (first second : Regex α)
  | star (r : Regex α)
  | boundary

namespace Regex

variable {α : Type}

abbrev Position (α : Type) : Type := Bool × List α

def plus (r : Regex α) : Regex α := .seq r (.star r)

def optional (r : Regex α) : Regex α := .alt r .empty

/-- One character after the other. -/
def each (accepts : List (α → Bool)) : Regex α :=
  accepts.foldr (fun p r => .seq (.one p) r) .empty

def literal [BEq α] (word : List α) : Regex α := each (word.map fun c => (· == c))

def anyOf (rs : List (Regex α)) : Regex α :=
  rs.foldr .alt (.one fun _ => false)

/-- As often as possible at first; an iteration that takes nothing fails. -/
def iterate (step : Position α → List (Position α)) : ℕ → Position α → List (Position α)
  | 0, x => [x]
  | n + 1, x =>
    ((step x).filter fun y => y.2.length < x.2.length).flatMap (iterate step n) ++ [x]

variable (isWord : α → Bool)

def nextIsWord : List α → Bool
  | [] => false
  | c :: _ => isWord c

def run : Regex α → Position α → List (Position α)
  | .empty, x => [x]
  | .one _, (_, []) => []
  | .one accepts, (_, c :: rest) => if accepts c then [(isWord c, rest)] else []
  | .seq first second, x => (run first x).flatMap (run second)
  | .alt first second, x => run first x ++ run second x
  | .star r, x => iterate (run r) x.2.length x
  | .boundary, (before, rest) => if before != nextIsWord isWord rest then [(before, rest)] else []

def testFrom (r : Regex α) : Bool → List α → Bool
  | before, [] => !(run isWord r (before, [])).isEmpty
  | before, c :: rest =>
    !(run isWord r (before, c :: rest)).isEmpty || testFrom r (isWord c) rest

/-- `r.test(text)` -/
def test (r : Regex α) (text : List α) : Bool := testFrom isWord r false text

/-- `r.test(text)` for an expression that starts with `^`. -/
def testStart (r : Regex α) (text : List α) : Bool := !(run isWord r (false, text)).isEmpty

/-- The matched texts of `text.matchAll(r)`, from a position with `n` more steps to go. After a
match that takes nothing the search goes on with the next character. -/
def matchesFrom (r : Regex α) : ℕ → Position α → List (List α)
  | 0, _ => []
  | n + 1, x =>
    match run isWord r x, x with
    | [], (_, []) => []
    | [], (_, c :: rest) => matchesFrom r n (isWord c, rest)
    | y :: _, (_, []) => [y.2]
    | y :: _, (_, c :: rest) =>
      if y.2.length ≤ rest.length then
        (c :: rest).take (rest.length + 1 - y.2.length) :: matchesFrom r n y
      else [] :: matchesFrom r n (isWord c, rest)

/-- `text.matchAll(r)` -/
def matchAll (r : Regex α) (text : List α) : List (List α) :=
  matchesFrom isWord r (text.length + 1) (false, text)

section Steps

variable {isWord} {r : Regex α} {accepts : α → Bool} {before : Bool} {c : α} {rest : List α}

theorem run_one_then : run isWord (.seq (.one accepts) r) (before, c :: rest) =
    if accepts c then run isWord r (isWord c, rest) else [] := by
  change (if accepts c then _ else _ : List (Position α)).flatMap _ = _
  split_ifs
  · exact List.append_nil _
  · rfl

theorem run_one_then_nil : run isWord (.seq (.one accepts) r) (before, []) = [] := rfl

theorem run_boundary_then : run isWord (.seq .boundary r) (before, rest) =
    if before != nextIsWord isWord rest then run isWord r (before, rest) else [] := by
  change (if before != nextIsWord isWord rest then _ else _ : List (Position α)).flatMap _ = _
  split_ifs
  · exact List.append_nil _
  · rfl

end Steps

section Extension

variable {isWord} {step : Position α → List (Position α)} {r : Regex α} {a : α}

/-- The position with more text behind it. -/
def extend (more : List α) (x : Position α) : Position α := (x.1, x.2 ++ more)

/-- No character of the expression is this one. -/
def Avoids (a : α) : Regex α → Prop
  | .empty | .boundary => True
  | .one accepts => accepts a = false
  | .seq first second | .alt first second => first.Avoids a ∧ second.Avoids a
  | .star r => r.Avoids a

/-- Positions from which nothing remains longer than the text that there is. -/
theorem iterate_fuel {n : ℕ} {x : Position α} (h : x.2.length ≤ n) :
    iterate step n x = iterate step x.2.length x := by
  induction n using Nat.strongRecOn generalizing x with
  | ind n ih =>
    cases n with
    | zero =>
      rw [Nat.le_zero.mp h]
    | succ n =>
      cases hlength : x.2.length with
      | zero =>
        have hnone : (step x).filter (fun y => y.2.length < x.2.length) = [] := by
          rw [List.filter_eq_nil_iff, hlength]
          simp
        change ((step x).filter fun y => y.2.length < x.2.length).flatMap _ ++ [x] = [x]
        rw [hnone]
        rfl
      | succ m =>
        rw [iterate, iterate]
        congr 1
        refine List.flatMap_congr fun y hy => ?_
        have hshorter : y.2.length < x.2.length := by simpa using (List.mem_filter.mp hy).2
        rw [ih n (Nat.lt_succ_self n) (by omega), ih m (by omega) (by omega)]

theorem iterate_extend {more : List α}
    (h : ∀ x, step (extend more x) = (step x).map (extend more)) (n : ℕ) (x : Position α) :
    iterate step n (extend more x) = (iterate step n x).map (extend more) := by
  induction n generalizing x with
  | zero => rfl
  | succ n ih =>
    have hlength : ∀ y : Position α, (decide ((extend more y).2.length < (extend more x).2.length))
        = decide (y.2.length < x.2.length) := by
      intro y
      simp [extend]
    rw [iterate, iterate, h, List.filter_map, List.map_append, List.map_flatMap, List.flatMap_map]
    congr 1
    have hfilter : (fun y => decide (y.2.length < (extend more x).2.length)) ∘ extend more =
        fun y : Position α => decide (y.2.length < x.2.length) := funext hlength
    rw [hfilter]
    exact List.flatMap_congr fun y _ => ih y

/-- A character that the expression avoids, and that is not part of a word, ends the text. -/
theorem run_separated (hword : isWord a = false) (h : r.Avoids a) (rest : List α)
    (x : Position α) :
    run isWord r (extend (a :: rest) x) = (run isWord r x).map (extend (a :: rest)) := by
  induction r generalizing x with
  | empty => rfl
  | one accepts =>
    obtain ⟨before, text⟩ := x
    cases text with
    | nil =>
      change (if accepts a then _ else _) = _
      rw [show accepts a = false from h]
      rfl
    | cons c text =>
      change (if accepts c then _ else _) = List.map _ (if accepts c then _ else _)
      split_ifs <;> rfl
  | seq first second ihfirst ihsecond =>
    rw [run, run, ihfirst h.1, List.flatMap_map, List.map_flatMap]
    exact List.flatMap_congr fun y _ => ihsecond h.2 y
  | alt first second ihfirst ihsecond =>
    rw [run, run, ihfirst h.1, ihsecond h.2, List.map_append]
  | star r ih =>
    have hlength : x.2.length ≤ (extend (a :: rest) x).2.length := by simp [extend]
    rw [run, run, iterate_extend fun y => ih h y, iterate_fuel hlength]
  | boundary =>
    obtain ⟨before, text⟩ := x
    have hnext : nextIsWord isWord (text ++ a :: rest) = nextIsWord isWord text := by
      cases text with
      | nil => exact hword
      | cons c text => rfl
    change (if before != nextIsWord isWord (text ++ a :: rest) then _ else _) =
      List.map _ (if before != nextIsWord isWord text then _ else _)
    rw [hnext]
    split_ifs <;> rfl

theorem testFrom_separated (hword : isWord a = false) (h : r.Avoids a) (text rest : List α)
    (before : Bool) : testFrom isWord r before (text ++ a :: rest) =
      (testFrom isWord r before text || test isWord r rest) := by
  induction text generalizing before with
  | nil =>
    have hrun := run_separated hword h rest (before, [])
    change run isWord r (before, a :: rest) = _ at hrun
    rw [List.nil_append, testFrom, testFrom, hrun, List.isEmpty_map, hword]
    rfl
  | cons c text ih =>
    have hrun := run_separated hword h rest (before, c :: text)
    change run isWord r (before, c :: (text ++ a :: rest)) = _ at hrun
    rw [List.cons_append, testFrom, testFrom, hrun, List.isEmpty_map, ih, Bool.or_assoc]

/-- A text that is separated by such a character matches where one of its parts does. -/
theorem test_separated (hword : isWord a = false) (h : r.Avoids a) (text rest : List α) :
    test isWord r (text ++ a :: rest) = (test isWord r text || test isWord r rest) :=
  testFrom_separated hword h text rest false

/-- Where the first character cannot start a match and is not part of a word, it can be left out. -/
theorem test_cons (hword : isWord a = false) (h : ∀ rest, run isWord r (false, a :: rest) = [])
    (text : List α) : test isWord r (a :: text) = test isWord r text := by
  rw [test, testFrom, h, hword]
  rfl

theorem mem_of_mem_run_each {accepts : List (α → Bool)} {x y : Position α}
    (hy : y ∈ run isWord (each accepts) x) :
    ∀ p ∈ accepts, ∃ c ∈ x.2, p c = true := by
  induction accepts generalizing x with
  | nil => exact fun p hp => (nomatch hp)
  | cons q accepts ih =>
    obtain ⟨before, text⟩ := x
    obtain ⟨z, hz, hyz⟩ := List.mem_flatMap.mp hy
    cases text with
    | nil => cases hz
    | cons c text =>
      change z ∈ if q c then _ else _ at hz
      split_ifs at hz with hq
      · rw [List.mem_singleton.mp hz] at hyz
        intro p hp
        rcases List.mem_cons.mp hp with rfl | hp
        · exact ⟨c, List.mem_cons_self, hq⟩
        · obtain ⟨d, hd, hpd⟩ := ih hyz p hp
          exact ⟨d, List.mem_cons_of_mem c hd, hpd⟩
      · cases hz

/-- A text without any character for one of the places does not match. -/
theorem test_each_eq_false {accepts : List (α → Bool)} {p : α → Bool} (hp : p ∈ accepts)
    {text : List α} (h : ∀ c ∈ text, p c = false) : test isWord (each accepts) text = false := by
  have hrun : ∀ before rest, (∀ c ∈ rest, p c = false) →
      run isWord (each accepts) (before, rest) = [] := by
    intro before rest hrest
    rw [List.eq_nil_iff_forall_not_mem]
    intro y hy
    obtain ⟨c, hc, hpc⟩ := mem_of_mem_run_each hy p hp
    rw [hrest c hc] at hpc
    cases hpc
  have hfrom : ∀ rest before, (∀ c ∈ rest, p c = false) →
      testFrom isWord (each accepts) before rest = false := by
    intro rest
    induction rest with
    | nil =>
      intro before hrest
      rw [testFrom, hrun before [] hrest]
      rfl
    | cons c rest ih =>
      intro before hrest
      rw [testFrom, hrun before _ hrest, ih _ fun d hd => hrest d (List.mem_cons_of_mem c hd)]
      rfl
  exact hfrom text false h

/-- The expression asks nothing about word boundaries. -/
def Boundless : Regex α → Prop
  | .empty | .one _ => True
  | .seq first second | .alt first second => first.Boundless ∧ second.Boundless
  | .star r => r.Boundless
  | .boundary => False

theorem boundless_each (accepts : List (α → Bool)) : (each accepts).Boundless := by
  induction accepts with
  | nil => trivial
  | cons p accepts ih => exact ⟨trivial, ih⟩

theorem boundless_anyOf {rs : List (Regex α)} (h : ∀ r ∈ rs, r.Boundless) :
    (anyOf rs).Boundless := by
  induction rs with
  | nil => trivial
  | cons r rs ih =>
    exact ⟨h r List.mem_cons_self, ih fun s hs => h s (List.mem_cons_of_mem r hs)⟩

theorem mem_iterate_extend {more : List α}
    (h : ∀ x y, y ∈ step x → extend more y ∈ step (extend more x)) {n m : ℕ} (hnm : n ≤ m)
    {x y : Position α} (hy : y ∈ iterate step n x) :
    extend more y ∈ iterate step m (extend more x) := by
  induction n generalizing m x with
  | zero =>
    rw [List.mem_singleton.mp hy]
    cases m with
    | zero => exact List.mem_singleton_self _
    | succ m => exact List.mem_append_right _ (List.mem_singleton_self _)
  | succ n ih =>
    obtain ⟨m, rfl⟩ : ∃ k, m = k + 1 := ⟨m - 1, by omega⟩
    rcases List.mem_append.mp hy with hy | hy
    · obtain ⟨z, hz, hyz⟩ := List.mem_flatMap.mp hy
      obtain ⟨hz, hshorter⟩ := List.mem_filter.mp hz
      have hshorter' : (extend more z).2.length < (extend more x).2.length := by
        simpa [extend] using hshorter
      refine List.mem_append_left _ (List.mem_flatMap.mpr ⟨extend more z, ?_, ih (by omega) hyz⟩)
      exact List.mem_filter.mpr ⟨h x z hz, by simpa using hshorter'⟩
    · rw [List.mem_singleton.mp hy]
      exact List.mem_append_right _ (List.mem_singleton_self _)

/-- What matches still matches when more text follows. -/
theorem mem_run_extend (h : r.Boundless) (more : List α) {x y : Position α}
    (hy : y ∈ run isWord r x) : extend more y ∈ run isWord r (extend more x) := by
  induction r generalizing x y with
  | empty =>
    rw [List.mem_singleton.mp hy]
    exact List.mem_singleton_self _
  | one accepts =>
    obtain ⟨before, text⟩ := x
    cases text with
    | nil => cases hy
    | cons c text =>
      change y ∈ if accepts c then _ else _ at hy
      change _ ∈ if accepts c then _ else _
      split_ifs at hy ⊢
      · rw [List.mem_singleton.mp hy]
        exact List.mem_singleton_self _
      · cases hy
  | seq first second ihfirst ihsecond =>
    obtain ⟨z, hz, hyz⟩ := List.mem_flatMap.mp hy
    exact List.mem_flatMap.mpr ⟨_, ihfirst h.1 hz, ihsecond h.2 hyz⟩
  | alt first second ihfirst ihsecond =>
    rcases List.mem_append.mp hy with hy | hy
    · exact List.mem_append_left _ (ihfirst h.1 hy)
    · exact List.mem_append_right _ (ihsecond h.2 hy)
  | star r ih =>
    have hlength : x.2.length ≤ (extend more x).2.length := by simp [extend]
    exact mem_iterate_extend (fun x y hxy => ih h hxy) hlength hy
  | boundary => exact absurd h id

theorem testFrom_append (h : r.Boundless) {before : Bool} {text : List α} (more : List α)
    (htest : testFrom isWord r before text = true) :
    testFrom isWord r before (text ++ more) = true := by
  have hrun : ∀ before text, (!(run isWord r (before, text)).isEmpty) = true →
      (!(run isWord r (before, text ++ more)).isEmpty) = true := by
    intro before text hsome
    cases hpositions : run isWord r (before, text) with
    | nil =>
      rw [hpositions] at hsome
      cases hsome
    | cons y positions =>
      have hy : y ∈ run isWord r (before, text) := by
        rw [hpositions]
        exact List.mem_cons_self
      have hmem := mem_run_extend h more hy
      rw [Bool.not_eq_true', List.isEmpty_eq_false_iff]
      exact List.ne_nil_of_mem hmem
  induction text generalizing before with
  | nil =>
    rw [testFrom] at htest
    have hstart := hrun before [] htest
    rw [List.nil_append] at hstart ⊢
    cases more with
    | nil => exact htest
    | cons c more =>
      rw [testFrom, hstart]
      rfl
  | cons c text ih =>
    rw [testFrom, Bool.or_eq_true] at htest
    rw [List.cons_append, testFrom, Bool.or_eq_true]
    exact htest.imp (hrun before (c :: text)) ih

/-- What a text contains is not lost when more text follows. -/
theorem test_append (h : r.Boundless) {text : List α} (more : List α)
    (htest : test isWord r text = true) : test isWord r (text ++ more) = true :=
  testFrom_append h more htest

end Extension

end Regex

end AppBuilder.Encoding
