import Dataflow.Value
import Dataflow.Proofs.Floats

/-!
# Packing and unpacking are inverse

`unpack t` takes a packed value `a` to `v` exactly when `a` is `v` in its packed form: `unpack_eq_some_iff`, by
induction on the type, with a list induction for arrays. The one exception are floats of the single format,
since unpacking rounds; packing widens them, and no rounding undoes that, so that `unpack_pack` holds of every
type. What is refused is what does not fit the type (`Packed.Fits`), be it at the bottom of a nest of arrays
(`Packed.item?`).
-/

namespace Dataflow

/-! ### Items one by one -/

section

variable {α β : Type} {f : α → Option β}

theorem mapM_map_of_inverse {g : β → α} (h : ∀ v, f (g v) = some v) (vs : List β) :
    (vs.map g).mapM f = some vs := by
  induction vs with
  | nil => rfl
  | cons v vs ih =>
    rw [List.map_cons, List.mapM_cons, h, ih]
    rfl

theorem mapM_cons_eq_some_iff {a : α} {items : List α} {vs : List β} :
    (a :: items).mapM f = some vs ↔ ∃ v rest, f a = some v ∧ items.mapM f = some rest ∧ vs = v :: rest := by
  rw [List.mapM_cons]
  constructor
  · intro h
    obtain ⟨v, hv, h⟩ := Option.bind_eq_some_iff.mp h
    obtain ⟨rest, hrest, h⟩ := Option.bind_eq_some_iff.mp h
    cases h
    exact ⟨v, rest, hv, hrest, rfl⟩
  · rintro ⟨v, rest, hv, hrest, rfl⟩
    rw [hv, hrest]
    rfl

theorem eq_map_of_mapM {g : β → α} (h : ∀ a v, f a = some v → a = g v) :
    ∀ {items : List α} {vs : List β}, items.mapM f = some vs → items = vs.map g
  | [], vs, hvs => by
    cases hvs
    rfl
  | a :: items, vs, hvs => by
    obtain ⟨v, rest, hv, hrest, rfl⟩ := mapM_cons_eq_some_iff.mp hvs
    rw [List.map_cons, ← h a v hv, ← eq_map_of_mapM h hrest]

theorem exists_mapM_iff : ∀ {items : List α},
    (∃ vs, items.mapM f = some vs) ↔ ∀ a ∈ items, ∃ v, f a = some v
  | [] => by
    constructor
    · intro _ a ha
      cases ha
    · intro _
      exact ⟨[], rfl⟩
  | a :: items => by
    constructor
    · rintro ⟨vs, hvs⟩
      obtain ⟨v, rest, hv, hrest, -⟩ := mapM_cons_eq_some_iff.mp hvs
      intro x hx
      rcases List.mem_cons.mp hx with rfl | hx
      · exact ⟨v, hv⟩
      · exact exists_mapM_iff.mp ⟨rest, hrest⟩ x hx
    · intro h
      obtain ⟨v, hv⟩ := h a (List.mem_cons_self ..)
      obtain ⟨rest, hrest⟩ := exists_mapM_iff.mpr fun x hx => h x (List.mem_cons_of_mem a hx)
      exact ⟨v :: rest, mapM_cons_eq_some_iff.mpr ⟨v, rest, hv, hrest, rfl⟩⟩

end

/-! ### Types and what fits them -/

theorem IntKind.ofInt?_eq_some_iff {k : IntKind} {i : Int} {v : k.Value} : k.ofInt? i = some v ↔ i = v.val := by
  unfold IntKind.ofInt?
  constructor
  · intro h
    split at h
    · cases h
      rfl
    · cases h
  · rintro rfl
    rw [dif_pos v.property]

variable [SealedTypes]

/-- Values of the type hold no float that unpacking would round. What is in a box is not looked at. -/
def Tag.IsExact : Tag → Prop
  | .float .single => False
  | .array t => t.IsExact
  | _ => True

/-- Arrays of arrays, so many levels deep, with items of the type at the bottom. -/
def Tag.nested (t : Tag) : Nat → Tag
  | 0 => t
  | n + 1 => .array (t.nested n)

namespace Packed

/-- The packed value has the form of a value of the type: it is of the type's kind, an integer in the type's range,
a box of that very type, an array of which every item fits the type of the items. -/
inductive Fits : Tag → Packed → Prop
  | unit : Fits .unit .unit
  | bool (b : Bool) : Fits .bool (.bool b)
  | int {k : IntKind} {i : Int} (h : k.InRange i) : Fits (.int k) (.int i)
  | float (f : FloatFormat) (x : Binary .double) : Fits (.float f) (.float x)
  | char (c : Char) : Fits .char (.char c)
  | string (s : String) : Fits .string (.string s)
  | array {t : Tag} {items : List Packed} (h : ∀ a ∈ items, Fits t a) : Fits (.array t) (.array items)
  | cell {t : Tag} (c : CellRef t) : Fits (.cell t) (.boxed (.cell t) c)
  | sealed {name : String} {s : Sealed} (v : SealedTypes.Value name s) :
    Fits (.sealed name s) (.boxed (.sealed name s) v)

/-- The packed value found by going down through arrays, at each level to the item of the next number. -/
def item? : Packed → List Nat → Option Packed
  | a, [] => some a
  | .array items, i :: path => items[i]?.bind (·.item? path)
  | _, _ :: _ => none

theorem unbox?_eq_some_iff {t : Tag} {a : Packed} {v : t.Value} : a.unbox? t = some v ↔ a = .boxed t v := by
  constructor
  · intro h
    cases a with
    | boxed tag value =>
      change (if h : tag = t then some (h ▸ value) else none) = some v at h
      by_cases heq : tag = t
      · subst heq
        rw [dif_pos rfl] at h
        cases h
        rfl
      · rw [dif_neg heq] at h
        cases h
    | _ => cases h
  · rintro rfl
    show (if h : t = t then some (h ▸ v) else none) = some v
    rw [dif_pos rfl]

end Packed

theorem unpack_array (t : Tag) (items : List Packed) :
    unpack (.array t) (.array items) = items.mapM (unpack t) :=
  rfl

/-! ### There and back -/

theorem unpack_pack : (t : Tag) → (v : t.Value) → unpack t (pack t v) = some v
  | .unit, () => rfl
  | .bool, _ => rfl
  | .int _, _ => IntKind.ofInt?_eq_some_iff.mpr rfl
  | .float .single, x => by
    exact congrArg some (Binary.narrow_widen x)
  | .float .double, _ => rfl
  | .char, _ => rfl
  | .string, _ => rfl
  | .array t, vs => by
    show unpack (.array t) (.array (List.map (pack t) vs)) = some vs
    rw [unpack_array]
    exact mapM_map_of_inverse (unpack_pack t) vs
  | .cell _, _ => Packed.unbox?_eq_some_iff.mpr rfl
  | .sealed _ _, _ => Packed.unbox?_eq_some_iff.mpr rfl

theorem eq_pack_of_unpack {t : Tag} (ht : t.IsExact) {a : Packed} {v : t.Value} (h : unpack t a = some v) :
    a = pack t v := by
  induction t generalizing a with
  | unit => cases a <;> cases h; rfl
  | bool => cases a <;> cases h; rfl
  | int k =>
    cases a with
    | int i => rw [show i = v.val from IntKind.ofInt?_eq_some_iff.mp h]; rfl
    | _ => cases h
  | float f =>
    cases f with
    | single => exact ht.elim -- unpacking would round
    | double => cases a <;> cases h; rfl
  | char => cases a <;> cases h; rfl
  | string => cases a <;> cases h; rfl
  | array t ih =>
    cases a with
    | array items =>
      rw [unpack_array] at h
      exact congrArg Packed.array (eq_map_of_mapM (fun a v => ih ht) h)
    | _ => cases h
  | cell t => exact Packed.unbox?_eq_some_iff.mp h
  | sealed name s => exact Packed.unbox?_eq_some_iff.mp h

theorem pack_injective (t : Tag) : Function.Injective (pack t) := by
  intro v w h
  have hv := unpack_pack t v
  rw [h, unpack_pack t w] at hv
  exact (Option.some.inj hv).symm

/-! ### What is refused -/

theorem exists_unpack_iff {t : Tag} {a : Packed} : (∃ v, unpack t a = some v) ↔ a.Fits t := by
  constructor
  · rintro ⟨v, h⟩
    induction t generalizing a with
    | unit => cases a <;> cases h; exact .unit
    | bool => cases a <;> cases h; exact .bool _
    | int k =>
      cases a with
      | int i =>
        obtain rfl := IntKind.ofInt?_eq_some_iff.mp h
        exact .int v.property
      | _ => cases h
    | float f => cases f <;> cases a <;> cases h <;> exact .float _ _
    | char => cases a <;> cases h; exact .char _
    | string => cases a <;> cases h; exact .string _
    | array t ih =>
      cases a with
      | array items =>
        rw [unpack_array] at h
        refine .array fun a ha => ?_
        obtain ⟨v, hv⟩ := exists_mapM_iff.mp ⟨v, h⟩ a ha
        exact ih v hv
      | _ => cases h
    | cell t =>
      rw [Packed.unbox?_eq_some_iff.mp h]
      exact .cell _
    | sealed name s =>
      rw [Packed.unbox?_eq_some_iff.mp h]
      exact .sealed _
  · intro h
    induction h with
    | unit => exact ⟨(), rfl⟩
    | bool b => exact ⟨b, rfl⟩
    | int h => exact ⟨⟨_, h⟩, IntKind.ofInt?_eq_some_iff.mpr rfl⟩
    | float f x =>
      cases f with
      | single => exact ⟨x.narrow, rfl⟩
      | double => exact ⟨x, rfl⟩
    | char c => exact ⟨c, rfl⟩
    | string s => exact ⟨s, rfl⟩
    | array _ ih =>
      rw [unpack_array]
      exact exists_mapM_iff.mpr ih
    | cell c => exact ⟨c, Packed.unbox?_eq_some_iff.mpr rfl⟩
    | sealed v => exact ⟨v, Packed.unbox?_eq_some_iff.mpr rfl⟩

theorem unpack_eq_none_iff {t : Tag} {a : Packed} : unpack t a = none ↔ ¬ a.Fits t := by
  rw [← exists_unpack_iff, Option.eq_none_iff_forall_ne_some, not_exists]

/-- An item that is refused, however deep in a nest of arrays, has the whole nest refused. -/
theorem unpack_nested_eq_none {t : Tag} {x : Packed} (hx : unpack t x = none) :
    ∀ {a : Packed} {path : List Nat}, a.item? path = some x → unpack (t.nested path.length) a = none := by
  intro a path h
  rw [unpack_eq_none_iff] at hx ⊢
  -- along the path: an array fits only if the item on the way does
  induction path generalizing a with
  | nil =>
    cases h
    exact hx
  | cons i path ih =>
    cases a with
    | array items =>
      obtain ⟨b, hb, h⟩ := Option.bind_eq_some_iff.mp h
      intro hfits
      cases hfits with
      | array hitems => exact ih h (hitems b (List.mem_of_getElem? hb))
    | _ => cases h

example : unpack (.array (.array (.int ⟨false, .bits8⟩))) (.array [.array [.int 7], .array [.int 7, .int 256]]) =
    none :=
  rfl

/-- Unpacking is the exact inverse of packing. -/
structure ExactPacking : Prop where
  unpack_pack : ∀ (t : Tag) (v : t.Value), unpack t (pack t v) = some v
  unpack_iff : ∀ t : Tag, t.IsExact → ∀ (a : Packed) (v : t.Value), unpack t a = some v ↔ a = pack t v
  injective : ∀ t : Tag, Function.Injective (pack t)
  /-- Floats are the same iff their words are. -/
  sameFloat : ∀ (f : FloatFormat) (x y : Binary f), x = y ↔ x.toBits = y.toBits
  refused : ∀ (t : Tag) (a : Packed), unpack t a = none ↔ ¬ a.Fits t
  outOfRange : ∀ (k : IntKind) (i : Int), ¬ k.InRange i → unpack (.int k) (.int i) = none
  otherBox : ∀ (t tag : Tag) (v : tag.Value), tag ≠ t → unpack t (.boxed tag v) = none
  /-- One bad item is enough, however deep in arrays. -/
  badItem : ∀ (t : Tag) (a x : Packed) (path : List Nat),
    a.item? path = some x → unpack t x = none → unpack (t.nested path.length) a = none

theorem exactPacking : ExactPacking where
  unpack_pack := unpack_pack
  unpack_iff t ht a v := by
    constructor
    · intro h
      exact eq_pack_of_unpack ht h
    · rintro rfl
      exact unpack_pack t v
  injective := pack_injective
  sameFloat f x y := Binary.toBits_inj.symm
  refused t a := unpack_eq_none_iff
  outOfRange k i h := by
    rw [unpack_eq_none_iff]
    rintro ⟨⟩
    exact h ‹_›
  otherBox t tag v h := by
    rw [unpack_eq_none_iff]
    intro hfits
    cases hfits <;> exact h rfl
  badItem t a x path h hx := unpack_nested_eq_none hx h

end Dataflow
