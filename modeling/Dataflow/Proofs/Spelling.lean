import Dataflow.Proofs.Reading

/-!
# Texts of types

Two types that have no sealed part are the same if their texts are (`Tag.text_eq_iff`). Texts of types are written by a
small grammar, `Tag.Spelled`: sixteen names, and brackets of two kinds around another text. More is shown than asked
for, because the induction goes better through: the texts are a prefix-free code, so that even with something written
after them they are told apart (`Tag.Spelled.append_inj`). Then a closing bracket is just the beginning of what comes
after, and nothing has to be cut off at the end. None of the names begins with another one, nor with what opens a
bracket.

An argument is refused only for a type that differs from its own, and so the message of that error never has the same
text twice; nor do two such errors share a message.
-/

namespace Dataflow

namespace Tag

/-- No part of the type is sealed, at whatever depth. -/
def IsPlain : Tag → Prop
  | .sealed _ _ => False
  | .array t | .cell t => t.IsPlain
  | _ => True

/-- The names of the types that are not made of others. -/
def names : List (Tag × String) :=
  [(.unit, "()"), (.bool, "bool"), (.char, "char"), (.string, "String"),
    (.float .single, "f32"), (.float .double, "f64"),
    (.int ⟨true, .bits8⟩, "i8"), (.int ⟨true, .bits16⟩, "i16"), (.int ⟨true, .bits32⟩, "i32"),
    (.int ⟨true, .bits64⟩, "i64"), (.int ⟨true, .word⟩, "isize"),
    (.int ⟨false, .bits8⟩, "u8"), (.int ⟨false, .bits16⟩, "u16"), (.int ⟨false, .bits32⟩, "u32"),
    (.int ⟨false, .bits64⟩, "u64"), (.int ⟨false, .word⟩, "usize")]

/-- How types are written: by name, or around the text of another type. -/
inductive Spelled : Tag → String → Prop
  | name {t : Tag} {s : String} (h : (t, s) ∈ names) : Spelled t s
  | array {t : Tag} {s : String} (h : Spelled t s) : Spelled (.array t) ("[" ++ s ++ "]")
  | cell {t : Tag} {s : String} (h : Spelled t s) : Spelled (.cell t) ("IVar<" ++ s ++ ">")

theorem spelled_text {t : Tag} (ht : t.IsPlain) : Spelled t t.text := by
  induction t with
  | unit | bool | char | string => exact .name (by decide)
  | int k =>
    obtain ⟨signed, size⟩ := k
    cases signed <;> cases size <;> exact .name (by decide)
  | float f => cases f <;> exact .name (by decide)
  | array t ih => exact .array (ih ht)
  | cell t ih => exact .cell (ih ht)
  | sealed name identity => exact ht.elim

/-! ### No text begins with another -/

theorem names_prefixFree : ∀ x ∈ names, ∀ y ∈ names, x.2.toList <+: y.2.toList → x = y := by
  decide +kernel

theorem names_apart_from_openings : ∀ x ∈ names, ∀ o ∈ ["[", "IVar<"],
    ¬ (x.2.toList <+: o.toList ∨ o.toList <+: x.2.toList) := by
  decide +kernel

theorem prefixes_of_append_eq {s s' a b : List Char} (h : s ++ a = s' ++ b) : s <+: s' ∨ s' <+: s :=
  List.prefix_or_prefix_of_prefix (List.prefix_append s a) (h ▸ List.prefix_append s' b)

theorem name_append_inj {x y : Tag × String} (hx : x ∈ names) (hy : y ∈ names) {a b : List Char}
    (h : x.2.toList ++ a = y.2.toList ++ b) : x = y ∧ a = b := by
  have heq : x = y := by
    rcases prefixes_of_append_eq h with hpre | hpre
    · exact names_prefixFree x hx y hy hpre
    · exact (names_prefixFree y hy x hx hpre).symm
  subst heq
  exact ⟨rfl, List.append_cancel_left h⟩

theorem name_append_ne_opening {x : Tag × String} (hx : x ∈ names) {o : String} (ho : o ∈ ["[", "IVar<"])
    (a b : List Char) : x.2.toList ++ a ≠ o.toList ++ b := by
  intro h
  exact names_apart_from_openings x hx o ho (prefixes_of_append_eq h)

theorem toList_bracketed (o s c : String) (a : List Char) :
    (o ++ s ++ c).toList ++ a = o.toList ++ (s.toList ++ (c.toList ++ a)) := by
  simp only [String.toList_append, List.append_assoc]

theorem Spelled.append_inj {t u : Tag} {s s' : String} (ht : Spelled t s) (hu : Spelled u s') {a b : List Char}
    (h : s.toList ++ a = s'.toList ++ b) : t = u ∧ a = b := by
  induction ht generalizing u s' a b with
  | name ht =>
    cases hu with
    | name hu =>
      obtain ⟨heq, hrest⟩ := name_append_inj ht hu h
      exact ⟨congrArg Prod.fst heq, hrest⟩
    | array hu =>
      rw [toList_bracketed] at h
      exact absurd h (name_append_ne_opening ht (by decide) _ _)
    | cell hu =>
      rw [toList_bracketed] at h
      exact absurd h (name_append_ne_opening ht (by decide) _ _)
  | array ht ih =>
    rw [toList_bracketed] at h
    cases hu with
    | name hu => exact absurd h.symm (name_append_ne_opening hu (by decide) _ _)
    | array hu =>
      rw [toList_bracketed] at h
      -- the closing bracket is the first character after the text within
      obtain ⟨rfl, hrest⟩ := ih hu (List.append_cancel_left h)
      exact ⟨rfl, List.append_cancel_left hrest⟩
    | cell hu =>
      rw [toList_bracketed] at h
      simp at h
  | cell ht ih =>
    rw [toList_bracketed] at h
    cases hu with
    | name hu => exact absurd h.symm (name_append_ne_opening hu (by decide) _ _)
    | array hu =>
      rw [toList_bracketed] at h
      simp at h
    | cell hu =>
      rw [toList_bracketed] at h
      obtain ⟨rfl, hrest⟩ := ih hu (List.append_cancel_left h)
      exact ⟨rfl, List.append_cancel_left hrest⟩

section

variable {t u : Tag} (ht : t.IsPlain) (hu : u.IsPlain)
include ht hu

theorem text_append_inj {a b : List Char} (h : t.text.toList ++ a = u.text.toList ++ b) : t = u ∧ a = b :=
  (spelled_text ht).append_inj (spelled_text hu) h

theorem text_eq_iff : t.text = u.text ↔ t = u := by
  constructor
  · intro h
    have htext : t.text.toList ++ [] = u.text.toList ++ [] := by rw [h]
    exact (text_append_inj ht hu htext).1
  · rintro rfl
    rfl

end

end Tag

/-! ### Mismatches -/

namespace RuntimeError

/-- If the error is a mismatch of two types without sealed parts, then the texts of these types differ. -/
def TellsApart : RuntimeError → Prop
  | .typeMismatch _ expected found => expected.IsPlain → found.IsPlain → expected.text ≠ found.text
  | _ => True

theorem tellsApart_of_ne {expected found : Tag} (h : found ≠ expected) (i : Nat) :
    (typeMismatch i expected found).TellsApart := by
  intro hexpected hfound htext
  exact h ((Tag.text_eq_iff hexpected hfound).mp htext).symm

/-- The digits of a number end where the colon is. -/
theorem repr_append_inj {m n : Nat} {a b : List Char} (h : m.repr.toList ++ ':' :: a = n.repr.toList ++ ':' :: b) :
    m = n ∧ a = b := by
  have hdigits (n : Nat) (rest : List Char) :
      (n.repr.toList ++ ':' :: rest).takeWhile (·.isDigit) = n.repr.toList := by
    have hall : ∀ c ∈ n.repr.toList, c.isDigit := by
      rw [Nat.toList_repr]
      intro c hc
      exact Nat.isDigit_of_mem_toDigits (by decide) (by decide) hc
    rw [List.takeWhile_append_of_pos hall, List.takeWhile_cons_of_neg (by decide), List.append_nil]
  have hrepr : m.repr.toList = n.repr.toList := by rw [← hdigits m a, h, hdigits n b]
  obtain rfl := Nat.repr_inj.mp (String.toList_inj.mp hrepr)
  exact ⟨rfl, (List.cons.inj (List.append_cancel_left h)).2⟩

theorem toList_message_typeMismatch (i : Nat) (expected found : Tag) :
    (typeMismatch i expected found).message.toList =
      "Argument ".toList ++ (i.repr.toList ++ ':' :: (" expected ".toList ++
        (expected.text.toList ++ (", found ".toList ++ found.text.toList)))) := by
  have hcolon : ": expected ".toList = ':' :: " expected ".toList := rfl
  show ("Argument " ++ i.repr ++ ": expected " ++ expected.text ++ ", found " ++ found.text).toList = _
  simp only [String.toList_append, hcolon, List.append_assoc, List.cons_append]

theorem message_typeMismatch_inj {i j : Nat} {t t' u u' : Tag} (ht : t.IsPlain) (ht' : t'.IsPlain)
    (hu : u.IsPlain) (hu' : u'.IsPlain)
    (h : (typeMismatch i t u).message = (typeMismatch j t' u').message) : i = j ∧ t = t' ∧ u = u' := by
  have hchars := congrArg String.toList h
  rw [toList_message_typeMismatch, toList_message_typeMismatch] at hchars
  obtain ⟨hi, hchars⟩ := repr_append_inj (List.append_cancel_left hchars)
  obtain ⟨hexpected, hchars⟩ := Tag.text_append_inj ht ht' (List.append_cancel_left hchars)
  have hfound := String.toList_inj.mp (List.append_cancel_left hchars)
  exact ⟨hi, hexpected, (Tag.text_eq_iff hu hu').mp hfound⟩

end RuntimeError

variable [SealedTypes]

open RuntimeError

theorem Argument.tellsApart_of_take {d : Datum} {t : Tag} {i : Nat} {e : RuntimeError}
    (h : d.argument.take t i = .error e) : e.TellsApart := by
  by_cases htag : d.tag = t
  · subst htag
    rw [Datum.take_argument] at h
    cases h
  · rw [Datum.take_argument_of_ne htag] at h
    cases h
    exact tellsApart_of_ne htag i

theorem ArgumentReader.tellsApart_of_replies {data : List Datum} {ts : List Tag} {reply : Reply}
    (hreply : reply ∈ (ofData data).replies ts) {e : RuntimeError} (h : reply.result = .error e) : e.TellsApart := by
  obtain ⟨k, hk⟩ := List.mem_iff_getElem?.mp hreply
  obtain ⟨hlt, -⟩ := List.getElem?_eq_some_iff.mp hk
  rw [length_replies] at hlt
  have ht := List.getElem?_eq_getElem hlt
  cases hd : data[k]? with
  | none =>
    rw [reply_of_le ht (List.getElem?_eq_none_iff.mp hd)] at hk
    cases hk
    cases h
    trivial
  | some d =>
    rw [reply_of_getElem? ht hd] at hk
    cases hk
    exact Argument.tellsApart_of_take h

theorem Arguments.tellsApart_of_unpack {data : List Datum} {ts : List Tag} {e : RuntimeError}
    (h : (ofData data).unpack ts = .error e) : e.TellsApart := by
  by_cases htags : data.map (·.tag) = ts
  · obtain ⟨vs, hvs⟩ := exists_ok_iff.mpr htags
    rw [hvs] at h
    cases h
  by_cases hlen : data.length = ts.length
  · obtain ⟨i, d, t, -, -, hne, -, herr⟩ := ArgumentReader.exists_mismatch ts.length 0 hlen htags
    rw [unpack_ofData hlen, herr] at h
    cases h
    exact tellsApart_of_ne hne _
  · rw [unpack_of_length_ne hlen] at h
    cases h
    trivial

/-- Texts of types without sealed parts tell which type it is. -/
structure UnambiguousTexts : Prop where
  spelled : ∀ t : Tag, t.IsPlain → t.Spelled t.text
  text_eq_iff : ∀ t u : Tag, t.IsPlain → u.IsPlain → (t.text = u.text ↔ t = u)
  /-- Here and in the next two: where a type is refused, two texts are shown that differ. A value is taken out of its
  slot, or one after the other is read on after whatever errors, or a whole list is unpacked. -/
  taken : ∀ (d : Datum) (t : Tag) (i : Nat) (e : RuntimeError), d.argument.take t i = .error e → e.TellsApart
  read : ∀ (data : List Datum) (r : ArgumentReader), (Arguments.ofData data).reader data.length = .ok r →
    ∀ (ts : List Tag), ∀ reply ∈ r.replies ts, ∀ e, reply.result = .error e → e.TellsApart
  unpacked : ∀ (data : List Datum) (ts : List Tag) (e : RuntimeError),
    (Arguments.ofData data).unpack ts = .error e → e.TellsApart
  /-- Different mismatches have different messages. -/
  message : ∀ (i j : Nat) (t t' u u' : Tag), t.IsPlain → t'.IsPlain → u.IsPlain → u'.IsPlain →
    (typeMismatch i t u).message = (typeMismatch j t' u').message → i = j ∧ t = t' ∧ u = u'

theorem unambiguousTexts : UnambiguousTexts where
  spelled t ht := Tag.spelled_text ht
  text_eq_iff t u ht hu := Tag.text_eq_iff ht hu
  taken d t i e h := Argument.tellsApart_of_take h
  read data r hr ts reply hreply e h := by
    rw [ArgumentReader.reader_ofData] at hr
    cases hr
    exact ArgumentReader.tellsApart_of_replies hreply h
  unpacked data ts e h := Arguments.tellsApart_of_unpack h
  message i j t t' u u' ht ht' hu hu' h := message_typeMismatch_inj ht ht' hu hu' h

/-- Sealed types are named as one likes. -/
example : (Tag.sealed "u8" .number).text = (Tag.int ⟨false, .bits8⟩).text :=
  rfl

end Dataflow
