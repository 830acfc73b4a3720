import Mathlib.Data.List.Forall2
import PenStream.Json.Basic

namespace PenStream.Json

namespace Fields

variable {fields fields' : Fields} {name name' : String} {v v' : Json}

@[simp]
theorem values_nil (name : String) : values [] name = [] :=
  rfl

@[simp]
theorem values_cons (f : String × Json) (fields : Fields) (name : String) :
    values (f :: fields) name =
      if f.1 = name then f.2 :: values fields name else values fields name := by
  by_cases h : f.1 = name <;> simp [values, h]

theorem values_append (fields fields' : Fields) (name : String) :
    values (fields ++ fields') name = values fields name ++ values fields' name :=
  List.filterMap_append

theorem values_eq_nil_iff : fields.values name = [] ↔ name ∉ fields.map Prod.fst := by
  induction fields with
  | nil            => simp
  | cons f rest hi => by_cases h : f.1 = name <;> simp [h, hi, eq_comm (a := name)]

-- A name that is there once.
theorem values_of_mem (hn : (fields.map Prod.fst).Nodup) (hm : (name, v) ∈ fields) :
    fields.values name = [v] := by
  induction fields with
  | nil            => contradiction
  | cons f rest hi =>
    have ⟨hf, hn⟩ := List.nodup_cons.mp hn
    rw [values_cons]
    rcases List.mem_cons.mp hm with rfl | hm
    · rw [if_pos rfl, values_eq_nil_iff.mpr hf]
    · have hne : f.1 ≠ name := fun he => hf (he ▸ List.mem_map_of_mem hm)
      rw [if_neg hne, hi hn hm]

theorem get?_of_values (h : fields.values name = [v]) (read? : Json → Option α) :
    fields.get? name read? = read? v := by
  rw [get?, h]

theorem get?_of_values_nil (h : fields.values name = []) (read? : Json → Option α) :
    fields.get? name read? = none := by
  rw [get?, h]

def without (fields : Fields) (name : String) : Fields :=
  fields.filter (·.1 ≠ name)

def replace (fields : Fields) (name : String) (v : Json) : Fields :=
  fields.map fun f => if f.1 = name then (name, v) else f

theorem mem_without {f : String × Json} : f ∈ fields.without name ↔ f ∈ fields ∧ f.1 ≠ name := by
  simp [without]

theorem values_without_self (fields : Fields) (name : String) :
    (fields.without name).values name = [] :=
  values_eq_nil_iff.mpr (by simp [without])

theorem values_without_of_ne (fields : Fields) (h : name' ≠ name) :
    (fields.without name).values name' = fields.values name' := by
  induction fields with
  | nil            => rfl
  | cons f rest hi =>
    rw [without, List.filter_cons]
    by_cases hf : f.1 = name
    case pos => simp [hf, h.symm, ← hi, without]
    case neg => simp [hf, ← hi, without]

theorem values_replace_self (fields : Fields) (name : String) (v : Json) :
    (fields.replace name v).values name = (fields.values name).map fun _ => v := by
  induction fields with
  | nil            => rfl
  | cons f rest hi =>
    rw [replace, List.map_cons]
    by_cases hf : f.1 = name <;> simp [hf, ← hi, replace]

theorem values_replace_of_ne (fields : Fields) (v : Json) (h : name' ≠ name) :
    (fields.replace name v).values name' = fields.values name' := by
  induction fields with
  | nil            => rfl
  | cons f rest hi =>
    rw [replace, List.map_cons]
    by_cases hf : f.1 = name <;> simp [hf, h.symm, ← hi, replace]

end Fields

-- A value written in another way: the fields of an object may stand in any order and among others
-- with other names, and so may the fields of the objects in it.
inductive WrittenAs : Json → Json → Prop
  | refl (j : Json) : WrittenAs j j
  | array {items items' : List Json} :
    List.Forall₂ WrittenAs items items' → WrittenAs (.array items) (.array items')
  | object {fields all : Fields} {values : List Json} (more : Fields) :
    List.Forall₂ WrittenAs (fields.map Prod.snd) values → (∀ f ∈ more, f.1 ∉ fields.map Prod.fst) →
    all.Perm ((fields.map Prod.fst).zip values ++ more) → WrittenAs (.object fields) (.object all)

-- Every one of the fields is there, once, written in some way.
def Fields.Shows (all fields : Fields) : Prop :=
  ∀ f ∈ fields, ∃ v, all.values f.1 = [v] ∧ f.2.WrittenAs v

@[simp]
theorem Fields.shows_nil (all : Fields) : all.Shows [] :=
  fun _ h => (List.not_mem_nil h).elim

@[simp]
theorem Fields.shows_cons {all fields : Fields} {f : String × Json} :
    all.Shows (f :: fields) ↔ (∃ v, all.values f.1 = [v] ∧ f.2.WrittenAs v) ∧ all.Shows fields :=
  List.forall_mem_cons

theorem Fields.Shows.without {all fields : Fields} (h : all.Shows fields) (name : String) :
    (all.without name).Shows (fields.without name) := by
  intro f hf
  have ⟨hf, hne⟩ := Fields.mem_without.mp hf
  rw [Fields.values_without_of_ne _ hne]
  exact h f hf

theorem Fields.Shows.replace {all fields : Fields} (h : all.Shows fields) (name : String)
    (v : Json) : (all.replace name v).Shows (fields.without name) := by
  intro f hf
  have ⟨hf, hne⟩ := Fields.mem_without.mp hf
  rw [Fields.values_replace_of_ne _ _ hne]
  exact h f hf

-- The one value under the name gives way to the other.
theorem Fields.Shows.values_replace {all fields : Fields} (h : all.Shows fields)
    {f : String × Json} (hf : f ∈ fields) (v : Json) : (all.replace f.1 v).values f.1 = [v] := by
  have ⟨_, hv, _⟩ := h f hf
  rw [Fields.values_replace_self, hv, List.map_singleton]

theorem Fields.mem_zip_of_forall₂ {R : Json → Json → Prop} {fields : Fields} {values : List Json}
    (h : List.Forall₂ R (fields.map Prod.snd) values) {f : String × Json} (hf : f ∈ fields) :
    ∃ v, (f.1, v) ∈ (fields.map Prod.fst).zip values ∧ R f.2 v := by
  induction fields generalizing values with
  | nil => contradiction
  | cons g rest hi =>
    cases h with
    | cons hr h =>
      rcases List.mem_cons.mp hf with rfl | hf
      · exact ⟨_, List.mem_cons_self, hr⟩
      · have ⟨v, hv, hr⟩ := hi h hf
        exact ⟨v, List.mem_cons_of_mem _ hv, hr⟩

namespace WrittenAs

variable {fields : Fields} {j : Json}

theorem integer_iff {n : Int} : (integer n).WrittenAs j ↔ j = integer n :=
  ⟨fun h => by cases h; rfl, fun h => h ▸ .refl _⟩

theorem string_iff {s : String} : (string s).WrittenAs j ↔ j = string s :=
  ⟨fun h => by cases h; rfl, fun h => h ▸ .refl _⟩

theorem exists_items {items : List Json} (h : (Json.array items).WrittenAs j) :
    ∃ items', j = .array items' ∧ List.Forall₂ WrittenAs items items' := by
  cases h with
  | refl    => exact ⟨items, rfl, List.forall₂_same.mpr fun v _ => refl v⟩
  | array h => exact ⟨_, rfl, h⟩

theorem exists_shows (hn : (fields.map Prod.fst).Nodup) (h : (Json.object fields).WrittenAs j) :
    ∃ all : Fields, j = .object all ∧ all.Shows fields := by
  cases h with
  | refl => exact ⟨fields, rfl, fun f hf => ⟨f.2, Fields.values_of_mem hn hf, refl f.2⟩⟩
  | @object _ all values more h hm hp =>
    refine ⟨all, rfl, fun f hf => ?_⟩
    have ⟨v, hz, hv⟩ := Fields.mem_zip_of_forall₂ h hf
    have hl : (fields.map Prod.fst).length ≤ values.length := by simp [← h.length_eq]
    have hz : Fields.values ((fields.map Prod.fst).zip values) f.1 = [v] :=
      Fields.values_of_mem (by rwa [List.map_fst_zip hl]) hz
    have hm : Fields.values more f.1 = [] := Fields.values_eq_nil_iff.mpr fun hn => by
      obtain ⟨g, hg, he⟩ := List.mem_map.mp hn
      exact hm g hg (he ▸ List.mem_map_of_mem hf)
    have hp : (all.values f.1).Perm _ := hp.filterMap _
    rw [← Fields.values, Fields.values_append, hz, hm] at hp
    exact ⟨v, List.perm_singleton.mp hp, hv⟩

theorem shows {all : Fields} (hn : (fields.map Prod.fst).Nodup)
    (h : (Json.object fields).WrittenAs (.object all)) : all.Shows fields := by
  have ⟨all', he, hs⟩ := h.exists_shows hn
  exact Json.object.inj he ▸ hs

end WrittenAs

-- What is left of a value, however it is written, when one of its fields is taken away or one of
-- its numbers is replaced by something that does not fit under its name, be it in an object or in
-- an array inside.
inductive Damaged (fits : String → Json → Prop) : Json → Json → Prop
  | removed {fields all : Fields} {name : String} :
    (object fields).WrittenAs (.object all) → name ∈ fields.map Prod.fst →
    Damaged fits (.object fields) (.object (all.without name))
  | replaced {fields all : Fields} {name : String} {n : Int} {v : Json} :
    (object fields).WrittenAs (.object all) → (name, integer n) ∈ fields → ¬fits name v →
    Damaged fits (.object fields) (.object (all.replace name v))
  | field {fields all : Fields} {name : String} {v v' : Json} :
    (object fields).WrittenAs (.object all) → (name, v) ∈ fields → Damaged fits v v' →
    Damaged fits (.object fields) (.object (all.replace name v'))
  | item {items items' : List Json} {i : Nat} {v v' : Json} :
    (array items).WrittenAs (.array items') → items[i]? = some v → Damaged fits v v' →
    Damaged fits (.array items) (.array (items'.set i v'))

-- What is written under the name of a field that is gone, or whose value is damaged.
def Fields.Spoils (fits : String → Json → Prop) (all : Fields) (f : String × Json) : Prop :=
  all.values f.1 = [] ∨
    ∃ v, all.values f.1 = [v] ∧ ((∃ n, f.2 = integer n) ∧ ¬fits f.1 v ∨ Damaged fits f.2 v)

namespace Damaged

variable {fits : String → Json → Prop} {fields : Fields} {j : Json}

-- The other fields are as they were.
theorem exists_spoils (hn : (fields.map Prod.fst).Nodup) (h : Damaged fits (object fields) j) :
    ∃ all : Fields, j = .object all ∧
      ∃ f ∈ fields, all.Spoils fits f ∧ all.Shows (fields.without f.1) := by
  cases h with
  | removed hw hm =>
    obtain ⟨f, hf, rfl⟩ := List.mem_map.mp hm
    exact ⟨_, rfl, f, hf, .inl (Fields.values_without_self ..), (hw.shows hn).without f.1⟩
  | replaced hw hm hv =>
    have hs := hw.shows hn
    exact ⟨_, rfl, _, hm, .inr ⟨_, hs.values_replace hm _, .inl ⟨⟨_, rfl⟩, hv⟩⟩, hs.replace _ _⟩
  | field hw hm hd =>
    have hs := hw.shows hn
    exact ⟨_, rfl, _, hm, .inr ⟨_, hs.values_replace hm _, .inr hd⟩, hs.replace _ _⟩

theorem exists_item {items : List Json} (h : Damaged fits (array items) j) :
    ∃ items' : List Json, j = .array items' ∧ ∃ v ∈ items, ∃ v' ∈ items', Damaged fits v v' := by
  cases h with
  | @item _ items' i v v' hw hv hd =>
    have ⟨_, he, hl⟩ := hw.exists_items
    have hi : i < items'.length := by
      rw [Json.array.inj he, ← hl.length_eq]
      exact (List.getElem?_eq_some_iff.mp hv).choose
    exact ⟨_, rfl, v, List.mem_of_getElem? hv, v', List.mem_set hi v', hd⟩

end Damaged

end PenStream.Json
