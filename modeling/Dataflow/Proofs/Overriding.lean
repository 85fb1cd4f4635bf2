import Mathlib.Data.Nat.Digits.Defs
import Mathlib.Data.List.DropRight
import Dataflow.Settings.Override

/-!
# What variables do to settings

`Settings.override` takes four variables in turn and changes the settings in place. Either every variable that
is set has a value it may have, and then each of its settings is what that value denotes; or there is a first one
that has not, which is what the error names, and the settings are those after the variables before it
(`Settings.overridden_override`). The invariant is `Settings.Overridden`, about the variables taken so far.

Which values a variable may have is said without the parsers, in `Override.IsValid`, so that the parsers are
proved right along the way: `Text.trim_eq_iff`, `Numeral.nat?_eq_some_iff`, `Override.size?_eq_some_iff`.
-/

namespace Dataflow

/-! ### White space at the ends -/

namespace Text

/-- What is left of a text without the white space at its ends. -/
def Trims (text core : List Char) : Prop :=
  (∃ left right, text = left ++ core ++ right ∧ (∀ c ∈ left, isBlank c) ∧ ∀ c ∈ right, isBlank c) ∧
    (∀ c ∈ core.head?, isBlank c = false) ∧ ∀ c ∈ core.getLast?, isBlank c = false

theorem dropWhile_append_of_blank {left rest : List Char} (hleft : ∀ c ∈ left, isBlank c)
    (hrest : ∀ c ∈ rest.head?, isBlank c = false) : (left ++ rest).dropWhile isBlank = rest := by
  rw [List.dropWhile_append_of_pos hleft]
  cases rest with
  | nil => rfl
  | cons c rest => exact List.dropWhile_cons_of_neg (by simp [hrest c rfl])

theorem isBlank_head_dropWhile {s : List Char} : ∀ c ∈ (s.dropWhile isBlank).head?, isBlank c = false := by
  intro c hc
  have hnot := List.head?_dropWhile_not isBlank s
  rw [Option.mem_def.mp hc] at hnot
  simpa using hnot

theorem blank_of_mem_takeWhile {s : List Char} : ∀ c ∈ s.takeWhile isBlank, isBlank c := by
  intro c hc
  exact List.mem_takeWhile_imp hc

theorem trims_trim (s : List Char) : Trims s (trim s) := by
  have hleft : s.takeWhile isBlank ++ s.dropWhile isBlank = s := List.takeWhile_append_dropWhile
  generalize hrest : s.dropWhile isBlank = rest at hleft
  have hright : trim s ++ (rest.reverse.takeWhile isBlank).reverse = rest := by
    unfold trim
    rw [hrest, ← List.reverse_append, List.takeWhile_append_dropWhile, List.reverse_reverse]
  refine ⟨⟨s.takeWhile isBlank, (rest.reverse.takeWhile isBlank).reverse, ?_, blank_of_mem_takeWhile, ?_⟩,
    ?_, ?_⟩
  · rw [List.append_assoc, hright, hleft]
  · intro c hc
    exact blank_of_mem_takeWhile c (List.mem_reverse.mp hc)
  · intro c hc
    -- the text begins as what was left after the first cut
    apply isBlank_head_dropWhile (s := s) c
    rw [hrest, ← hright]
    exact List.mem_head?_append_of_mem_head? hc
  · intro c hc
    unfold trim at hc
    rw [List.getLast?_reverse] at hc
    exact isBlank_head_dropWhile c hc

theorem trim_eq_iff {s core : List Char} : trim s = core ↔ Trims s core := by
  constructor
  · rintro rfl
    exact trims_trim s
  · rintro ⟨⟨left, right, rfl, hleft, hright⟩, hfirst, hlast⟩
    have hback : (core ++ right).reverse.dropWhile isBlank = core.reverse := by
      rw [List.reverse_append]
      apply dropWhile_append_of_blank
      · intro c hc
        exact hright c (List.mem_reverse.mp hc)
      · rwa [List.head?_reverse]
    cases core with
    | nil =>
      have hall : ∀ c ∈ left ++ right, isBlank c := by
        intro c hc
        exact (List.mem_append.mp hc).elim (hleft c) (hright c)
      unfold trim
      rw [List.append_nil, List.dropWhile_eq_nil_iff.mpr hall]
      rfl
    | cons c core =>
      unfold trim
      rw [List.append_assoc, dropWhile_append_of_blank hleft (by simpa using hfirst), hback,
        List.reverse_reverse]

end Text

/-! ### Numerals -/

namespace Numeral

/-- The text is that of a number: digits of ASCII, at least one, the last of them the units, and before them a
plus sign or not. -/
def Denotes (text : List Char) (n : Nat) : Prop :=
  ∃ digits : List Char, (text = digits ∨ text = '+' :: digits) ∧ digits ≠ [] ∧
    (∀ c ∈ digits, '0' ≤ c ∧ c ≤ '9') ∧
    n = Nat.ofDigits 10 (digits.reverse.map fun c => c.toNat - '0'.toNat)

theorem isDigit_iff {c : Char} : c.isDigit = true ↔ '0' ≤ c ∧ c ≤ '9' := by
  unfold Char.isDigit
  rw [Bool.and_eq_true, decide_eq_true_eq, decide_eq_true_eq]
  rfl

theorem foldl_digits (digits : List Char) (hdigits : ∀ c ∈ digits, c.isDigit) (n : Nat) :
    digits.foldl (fun n c => 10 * n + digitValue c) n =
      Nat.ofDigits 10 (digits.reverse.map fun c => c.toNat - '0'.toNat) + 10 ^ digits.length * n := by
  induction digits generalizing n with
  | nil => simp
  | cons c digits ih =>
    have hvalue : digitValue c = c.toNat - '0'.toNat := by
      unfold digitValue
      rw [if_pos (hdigits c (by simp))]
    rw [List.foldl_cons, ih (fun c hc => hdigits c (by simp [hc])), List.reverse_cons, List.map_append,
      Nat.ofDigits_append, hvalue, List.length_map, List.length_reverse, List.map_singleton,
      Nat.ofDigits_singleton, List.length_cons]
    ring

theorem ofDigits_eq {digits : List Char} (hdigits : ∀ c ∈ digits, c.isDigit) :
    ofDigits 10 digits = Nat.ofDigits 10 (digits.reverse.map fun c => c.toNat - '0'.toNat) := by
  unfold ofDigits
  rw [foldl_digits digits hdigits 0]
  omega

theorem digits?_eq_some_iff {digits : List Char} {n : Nat} : digits? digits = some n ↔
    digits ≠ [] ∧ (∀ c ∈ digits, '0' ≤ c ∧ c ≤ '9') ∧
      n = Nat.ofDigits 10 (digits.reverse.map fun c => c.toNat - '0'.toNat) := by
  unfold digits?
  rw [Option.ite_none_right_eq_some, List.all_eq_true, and_assoc]
  constructor
  · rintro ⟨hne, hdigits, hn⟩
    cases hn
    exact ⟨hne, fun c hc => isDigit_iff.mp (hdigits c hc), ofDigits_eq hdigits⟩
  · rintro ⟨hne, hdigits, rfl⟩
    have hdigits : ∀ c ∈ digits, c.isDigit := fun c hc => isDigit_iff.mpr (hdigits c hc)
    exact ⟨hne, hdigits, congrArg some (ofDigits_eq hdigits)⟩

theorem nat?_eq_some_iff {bound : Nat} {s : List Char} {n : Nat} :
    nat? bound s = some n ↔ Denotes s n ∧ n < bound := by
  have hsign : ¬('0' ≤ '+' ∧ '+' ≤ '9') := by decide
  unfold nat? Denotes
  rw [Option.filter_eq_some_iff, decide_eq_true_eq]
  refine and_congr_left fun _ => ?_
  split
  · next rest =>
    rw [digits?_eq_some_iff]
    constructor
    · intro h
      exact ⟨rest, .inr rfl, h⟩
    · rintro ⟨digits, rfl | hdigits, hne, hall, hn⟩
      · exact absurd (hall '+' (by simp)) hsign
      · cases hdigits
        exact ⟨hne, hall, hn⟩
  · next hplus =>
    rw [digits?_eq_some_iff]
    constructor
    · intro h
      exact ⟨s, .inl rfl, h⟩
    · rintro ⟨digits, rfl | hdigits, h⟩
      · exact h
      · exact absurd hdigits (hplus digits)

end Numeral

/-! ### Values of variables -/

namespace Override

attribute [local instance (high)] instPowNat

/-- The text denotes a size, white space around it aside. -/
def IsSize (value : String) (n : Nat) : Prop :=
  ∃ core, Text.Trims value.toList core ∧ Numeral.Denotes core n ∧ n < 2 ^ (64 : Nat)

/-- The text is one of the spellings of a policy. -/
def IsPolicy (value : String) : FaultPolicy → Prop
  | .abortTask => value = "abort_task" ∨ value = "task"
  | .abortProcess => value = "abort_process" ∨ value = "process"

/-- The text with the letters of ASCII in lower case is a name of a level. -/
def IsLevel (value : String) (level : LogLevel) : Prop :=
  let name := String.ofList (value.toList.map Char.toLower)
  match level with
  | .trace => name = "trace"
  | .debug => name = "debug"
  | .info => name = "info"
  | .warn => name = "warn" ∨ name = "warning"
  | .error => name = "error"

/-- The variable may have that value. -/
def IsValid (o : Override) (value : String) : Prop :=
  match o with
  | .workers | .queueCapacity => ∃ n, IsSize value n
  | .faultPolicy => ∃ policy, IsPolicy value policy
  | .logLevel => ∃ level, IsLevel value level

theorem size?_eq_some_iff {value : String} {n : Nat} : size? value = some n ↔ IsSize value n := by
  unfold size? IsSize
  rw [Numeral.nat?_eq_some_iff]
  constructor
  · rintro ⟨hn, hlt⟩
    exact ⟨_, Text.trims_trim _, hn, hlt⟩
  · rintro ⟨core, hcore, hn, hlt⟩
    rw [Text.trim_eq_iff.mpr hcore]
    exact ⟨hn, hlt⟩

theorem policy?_eq_some_iff {value : String} {policy : FaultPolicy} :
    policy? value = some policy ↔ IsPolicy value policy := by
  unfold policy?
  split
  · cases policy <;> simp [IsPolicy]
  · cases policy <;> simp [IsPolicy]
  · cases policy <;> simp [IsPolicy]
  · cases policy <;> simp [IsPolicy]
  · cases policy <;> simp_all [IsPolicy]

theorem level?_eq_some_iff {value : String} {level : LogLevel} :
    LogLevel.ofText? value = some level ↔ IsLevel value level := by
  unfold LogLevel.ofText? IsLevel
  generalize String.ofList (value.toList.map Char.toLower) = name
  by_cases hname : name ∈ LogLevel.names.map Prod.fst
  · simp only [LogLevel.names, List.map_cons, List.map_nil, List.mem_cons, List.not_mem_nil, or_false] at hname
    rcases hname with rfl | rfl | rfl | rfl | rfl | rfl <;> cases level <;> decide
  · have hnone : LogLevel.names.lookup name = none := by
      rw [List.lookup_eq_none_iff]
      intro p hp
      have hne : name ≠ p.1 := by
        rintro rfl
        exact hname (List.mem_map_of_mem hp)
      simpa using hne
    rw [hnone]
    simp only [LogLevel.names, List.map_cons, List.map_nil, List.mem_cons, List.not_mem_nil, or_false,
      not_or] at hname
    cases level <;> simp [hname]

theorem exists_replace?_iff {o : Override} {value : String} {s : Settings} :
    (∃ s', o.replace? value s = some s') ↔ o.IsValid value := by
  cases o <;> simp [replace?, IsValid, size?_eq_some_iff, policy?_eq_some_iff, level?_eq_some_iff]

end Override

/-! ### The variables in turn -/

/-- A setting with a text for it is what the text denotes, and one without is as it was. -/
def Takes {α : Type} (Reads : String → α → Prop) (text? : Option String) (old new : α) : Prop :=
  match text? with
  | none => new = old
  | some text => Reads text new

namespace Settings

variable {lookup : String → Option String} {applied : List Override} {o : Override} {s s₁ s₂ : Settings}

/-- The text of a variable, if it is one of those that were applied. -/
def given (lookup : String → Option String) (applied : List Override) (o : Override) : Option String :=
  if o ∈ applied then lookup o.name else none

/-- The second settings are the first ones with the variables of a list applied. -/
structure Overridden (lookup : String → Option String) (applied : List Override) (s s' : Settings) : Prop where
  numWorkers : Takes Override.IsSize (given lookup applied .workers) s.pool.numWorkers s'.pool.numWorkers
  maxQueueSize :
    Takes Override.IsSize (given lookup applied .queueCapacity) s.pool.maxQueueSize s'.pool.maxQueueSize
  faultPolicy :
    Takes Override.IsPolicy (given lookup applied .faultPolicy) s.pool.faultPolicy s'.pool.faultPolicy
  logLevel : Takes Override.IsLevel (given lookup applied .logLevel) s.logLevel s'.logLevel
  rest : s' =
    { s with
      pool :=
        { s.pool with
          numWorkers := s'.pool.numWorkers
          maxQueueSize := s'.pool.maxQueueSize
          faultPolicy := s'.pool.faultPolicy }
      logLevel := s'.logLevel }

theorem given_concat_self : given lookup (applied ++ [o]) o = lookup o.name := by
  unfold given
  rw [if_pos (by simp)]

theorem given_concat_of_ne {o' : Override} (h : o' ≠ o) :
    given lookup (applied ++ [o]) o' = given lookup applied o' := by
  unfold given
  simp [h]

theorem given_concat_of_none (h : lookup o.name = none) (o' : Override) :
    given lookup (applied ++ [o]) o' = given lookup applied o' := by
  by_cases ho : o' = o
  · subst ho
    rw [given_concat_self]
    unfold given
    split
    · rfl
    · exact h
  · exact given_concat_of_ne ho

theorem Overridden.nil (lookup : String → Option String) (s : Settings) : s.Overridden lookup [] s :=
  ⟨rfl, rfl, rfl, rfl, rfl⟩

theorem Overridden.skip (h : s.Overridden lookup applied s₁) (hnone : lookup o.name = none) :
    s.Overridden lookup (applied ++ [o]) s₁ := by
  obtain ⟨hworkers, hsize, hpolicy, hlevel, hrest⟩ := h
  constructor
  all_goals first | exact hrest | rwa [given_concat_of_none hnone]

theorem Overridden.replace {value : String} (h : s.Overridden lookup applied s₁)
    (hsome : lookup o.name = some value) (hr : o.replace? value s₁ = some s₂) :
    s.Overridden lookup (applied ++ [o]) s₂ := by
  obtain ⟨hworkers, hsize, hpolicy, hlevel, hrest⟩ := h
  cases o with
  | workers =>
    obtain ⟨n, hn, rfl⟩ := Option.map_eq_some_iff.mp hr
    refine ⟨?_, ?_, ?_, ?_, ?_⟩
    · rw [given_concat_self, hsome]
      exact Override.size?_eq_some_iff.mp hn
    · rwa [given_concat_of_ne (by decide)]
    · rwa [given_concat_of_ne (by decide)]
    · rwa [given_concat_of_ne (by decide)]
    · rw [hrest]
  | queueCapacity =>
    obtain ⟨n, hn, rfl⟩ := Option.map_eq_some_iff.mp hr
    refine ⟨?_, ?_, ?_, ?_, ?_⟩
    · rwa [given_concat_of_ne (by decide)]
    · rw [given_concat_self, hsome]
      exact Override.size?_eq_some_iff.mp hn
    · rwa [given_concat_of_ne (by decide)]
    · rwa [given_concat_of_ne (by decide)]
    · rw [hrest]
  | faultPolicy =>
    obtain ⟨policy, hpol, rfl⟩ := Option.map_eq_some_iff.mp hr
    refine ⟨?_, ?_, ?_, ?_, ?_⟩
    · rwa [given_concat_of_ne (by decide)]
    · rwa [given_concat_of_ne (by decide)]
    · rw [given_concat_self, hsome]
      exact Override.policy?_eq_some_iff.mp hpol
    · rwa [given_concat_of_ne (by decide)]
    · rw [hrest]
  | logLevel =>
    obtain ⟨level, hl, rfl⟩ := Option.map_eq_some_iff.mp hr
    refine ⟨?_, ?_, ?_, ?_, ?_⟩
    · rwa [given_concat_of_ne (by decide)]
    · rwa [given_concat_of_ne (by decide)]
    · rwa [given_concat_of_ne (by decide)]
    · rw [given_concat_self, hsome]
      exact Override.level?_eq_some_iff.mp hl
    · rw [hrest]

/-- Variables with values that they may have are applied, and what comes after them goes on from there. -/
theorem exists_applyOverrides (rest : List Override) {before : List Override}
    (hvalid : ∀ o ∈ before, ∀ value, lookup o.name = some value → o.IsValid value)
    (h : s.Overridden lookup applied s₁) :
    ∃ s', applyOverrides lookup (before ++ rest) s₁ = applyOverrides lookup rest s' ∧
      s.Overridden lookup (applied ++ before) s' := by
  induction before generalizing applied s₁ with
  | nil => exact ⟨s₁, rfl, by rwa [List.append_nil]⟩
  | cons o before ih =>
    have hbefore := fun o' ho => hvalid o' (List.mem_cons_of_mem o ho)
    rw [List.append_cons, List.cons_append, applyOverrides]
    cases hlookup : lookup o.name with
    | none => exact ih hbefore (h.skip hlookup)
    | some value =>
      obtain ⟨s₂, hs₂⟩ :=
        Override.exists_replace?_iff (s := s₁).mpr (hvalid o (List.mem_cons_self ..) value hlookup)
      simp only [hs₂]
      exact ih hbefore (h.replace hlookup hs₂)

/-- Settings are overridden by four variables in a fixed order. If each that is set has a value that it may
have, the settings of those variables, and no others, are what the values denote. Otherwise the first that has
another value is named with it, and the settings of the variables before it, and no others, are what theirs
denote. -/
theorem overridden_override (s : Settings) (lookup : String → Option String) :
    Override.all.map Override.name =
        ["IVARPOOL_WORKERS", "IVARPOOL_QUEUE_CAPACITY", "IVARPOOL_FAULT_POLICY", "IVARPOOL_LOG"] ∧
      ((∀ o ∈ Override.all, ∀ value, lookup o.name = some value → o.IsValid value) →
        ∃ s', s.override lookup = (s', .ok ()) ∧ s.Overridden lookup Override.all s') ∧
      ((∃ o ∈ Override.all, ∃ value, lookup o.name = some value ∧ ¬ o.IsValid value) →
        ∃ before o after value s', Override.all = before ++ o :: after ∧
          (∀ o' ∈ before, ∀ value', lookup o'.name = some value' → o'.IsValid value') ∧
          lookup o.name = some value ∧ ¬ o.IsValid value ∧
          s.override lookup = (s', .error (.invalidVariable o.name value)) ∧
          s.Overridden lookup before s') := by
  refine ⟨rfl, ?_, ?_⟩
  · intro hvalid
    obtain ⟨s', hs', h⟩ := exists_applyOverrides [] hvalid (Overridden.nil lookup s)
    rw [List.append_nil] at hs'
    exact ⟨s', hs', h⟩
  · rintro ⟨o, ho, hbad⟩
    classical
    let bad := fun o : Override => decide (∃ value, lookup o.name = some value ∧ ¬ o.IsValid value)
    have hfind : (Override.all.find? bad).isSome :=
      List.find?_isSome.mpr ⟨o, ho, decide_eq_true hbad⟩
    obtain ⟨o, ho⟩ := Option.isSome_iff_exists.mp hfind
    obtain ⟨hbad, before, after, hall, hbefore⟩ := List.find?_eq_some_iff_append.mp ho
    obtain ⟨value, hvalue, hnot⟩ := of_decide_eq_true hbad
    have hvalid : ∀ o' ∈ before, ∀ value', lookup o'.name = some value' → o'.IsValid value' := by
      intro o' ho'
      simpa [bad] using hbefore o' ho'
    obtain ⟨s', hs', h⟩ := exists_applyOverrides (o :: after) hvalid (Overridden.nil lookup s)
    have hnone : o.replace? value s' = none := by
      rw [Option.eq_none_iff_forall_ne_some]
      intro s'' hs''
      exact hnot (Override.exists_replace?_iff.mp ⟨s'', hs''⟩)
    refine ⟨before, o, after, value, s', hall, hvalid, hvalue, hnot, ?_, h⟩
    unfold override
    rw [hall, hs', applyOverrides]
    simp only [hvalue, hnone]

example :
    let lookup := fun name =>
      if name = "IVARPOOL_WORKERS" then some " +07\n" else if name = "IVARPOOL_LOG" then some "Loud " else none
    ({} : Settings).override lookup =
      ({ pool := { numWorkers := 7 } }, .error (.invalidVariable "IVARPOOL_LOG" "Loud ")) := by
  decide +kernel

end Settings
end Dataflow
