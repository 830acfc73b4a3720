import PenStream.Command.Record
import PenStream.Proofs.Json.Written

namespace PenStream

-- An integer of 32 bits, one of them the sign.
def InWord (n : Int) : Prop :=
  -0x80000000 ≤ n ∧ n ≤ 0x7FFFFFFF

def Point.InWords (p : Point) : Prop :=
  InWord p.x ∧ InWord p.y

namespace Command

def InWords : Command → Prop
  | setColors ..            => True
  | line p q _              => p.InWords ∧ q.InWords
  | rectangle p q _         => p.InWords ∧ q.InWords
  | bar p q _               => p.InWords ∧ q.InWords
  | circle p r _            => p.InWords ∧ InWord r
  | ellipse p sa ea rx ry _ => p.InWords ∧ InWord sa ∧ InWord ea ∧ InWord rx ∧ InWord ry
  | pixel p _               => p.InWords
  | moveTo p                => p.InWords
  | lineTo p q _            => p.InWords ∧ q.InWords
  | polyline ps _           => ∀ p ∈ ps, p.InWords
  | setFill ..              => True
  | floodFill p _ _         => p.InWords
  | reset                   => True
  | defineWindow p q        => p.InWords ∧ q.InWords

def byteNames : List String :=
  ["fg", "bg", "color", "style", "border", "fill_color"]

-- Whether a value is an integer that may stand under a name.
def Fits (name : String) (v : Json) : Prop :=
  ∃ n : Int, v = .integer n ∧ if name ∈ byteNames then 0 ≤ n ∧ n < 0x100 else InWord n

end Command

namespace Json

theorem int32?_integer {n : Int} (h : InWord n) : int32? (integer n) = some n :=
  if_pos h

theorem uint8?_uint8 (b : UInt8) : uint8? (uint8 b) = some b := by
  have := b.toNat_lt
  have hb : (b.toNat : Int) ≤ 255 := by omega
  simp [uint8?, uint8, natural, below?, within?, hb]

theorem isSome_int32?_iff {v : Json} : (int32? v).isSome ↔ ∃ n, v = integer n ∧ InWord n := by
  cases v <;> simp [int32?, within?, InWord]

theorem isSome_uint8?_iff {v : Json} :
    (uint8? v).isSome ↔ ∃ n, v = integer n ∧ 0 ≤ n ∧ n < 0x100 := by
  cases v <;> simp [uint8?, below?, within?]
  omega

theorem WrittenAs.uint8_iff {b : UInt8} {j : Json} : (uint8 b).WrittenAs j ↔ j = uint8 b :=
  integer_iff

namespace Fields.Spoils

variable {all : Fields} {name : String} {n : Int}

-- There is nothing inside a number that could be damaged.
theorem of_integer (h : all.Spoils Command.Fits (name, .integer n)) :
    all.values name = [] ∨ ∃ v, all.values name = [v] ∧ ¬Command.Fits name v := by
  obtain h | ⟨v, hv, ⟨_, h⟩ | h⟩ := h
  · exact .inl h
  · exact .inr ⟨v, hv, h⟩
  · nomatch h

theorem get?_int32? (h : all.Spoils Command.Fits (name, .integer n))
    (hn : name ∉ Command.byteNames) : all.get? name int32? = none := by
  obtain h | ⟨v, hv, h⟩ := h.of_integer
  · exact get?_of_values_nil h _
  · rw [get?_of_values hv, ← Option.not_isSome_iff_eq_none, isSome_int32?_iff]
    simpa [Command.Fits, hn] using h

theorem get?_uint8? (h : all.Spoils Command.Fits (name, .integer n))
    (hn : name ∈ Command.byteNames) : all.get? name uint8? = none := by
  obtain h | ⟨v, hv, h⟩ := h.of_integer
  · exact get?_of_values_nil h _
  · rw [get?_of_values hv, ← Option.not_isSome_iff_eq_none, isSome_uint8?_iff]
    simpa [Command.Fits, hn] using h

end Fields.Spoils

end Json

namespace Point

variable {p : Point} {ps : List Point} {j : Json} {items : List Json}

theorem ofJson?_of_writtenAs (hp : p.InWords) (h : p.toJson.WrittenAs j) : ofJson? j = some p := by
  obtain ⟨all, rfl, hs⟩ := h.exists_shows (by simp)
  simp only [Json.Fields.shows_cons, Json.WrittenAs.integer_iff, exists_eq_right] at hs
  obtain ⟨hx, hy, -⟩ := hs
  simp [ofJson?, Json.record?, Json.Fields.get?_of_values, hx, hy, Json.int32?_integer, hp.left,
    hp.right]

theorem ofJson?_of_damaged (h : Json.Damaged Command.Fits p.toJson j) : ofJson? j = none := by
  obtain ⟨all, rfl, f, hf, hd, -⟩ := h.exists_spoils (by simp)
  simp only [List.mem_cons, List.not_mem_nil, or_false] at hf
  rcases hf with rfl | rfl
  all_goals simp [ofJson?, Json.record?, hd.get?_int32? (by decide)]

theorem mapM_ofJson?_of_writtenAs (hp : ∀ p ∈ ps, p.InWords)
    (h : List.Forall₂ Json.WrittenAs (ps.map toJson) items) : items.mapM ofJson? = some ps := by
  induction ps generalizing items with
  | nil          => cases h; rfl
  | cons p ps hi =>
    have ⟨hp, hps⟩ := List.forall_mem_cons.mp hp
    cases h with
    | cons h hs => rw [List.mapM_cons, ofJson?_of_writtenAs hp h, hi hps hs]; rfl

theorem mapM_ofJson?_eq_none (hj : j ∈ items) (h : ofJson? j = none) :
    items.mapM ofJson? = none := by
  induction items with
  | nil             => contradiction
  | cons i items hi =>
    rw [List.mapM_cons]
    rcases List.mem_cons.mp hj with rfl | hj
    · rw [h]; rfl
    · rw [hi hj]; cases ofJson? i <;> rfl

end Point

namespace Command

open Json (int32? uint8?)

variable {c : Command} {all : Json.Fields} {f : String × Json} {j : Json}

theorem nodup_names (c : Command) :
    ((("type", Json.string c.kind) :: c.fields).map Prod.fst).Nodup := by
  cases c <;> simp [fields, spanFields]

-- The parameters of a command are numbers and, in a single case, points.
theorem fields_cases (c : Command) : ∀ f ∈ c.fields,
    (f.1 ≠ "points" ∧ ∃ n, f.2 = .integer n) ∨
      ∃ ps : List Point, f = ("points", .array (ps.map Point.toJson)) := by
  cases c
  case polyline ps color =>
    simp only [fields, List.forall_mem_cons]
    exact ⟨.inr ⟨ps, rfl⟩, .inl ⟨by decide, _, rfl⟩, nofun⟩
  all_goals simp [fields, spanFields, Json.uint8, Json.natural]

-- Whether a command can take the value under a name.
def Reads (all : Json.Fields) (name : String) : Prop :=
  if name = "points" then (all.get? name (·.array? >>= List.mapM Point.ofJson?)).isSome
  else if name ∈ byteNames then (all.get? name uint8?).isSome
  else (all.get? name int32?).isSome

theorem isSome_ofFields?_iff (all : Json.Fields) (c : Command) :
    (ofFields? all c.kind).isSome ↔ ∀ f ∈ c.fields, Reads all f.1 := by
  cases c <;>
    simp [kind, ofFields?, fields, spanFields, spanOf?, pointOf?, centerOf?, colorOf?,
      Option.isSome_iff_exists, Option.bind_eq_some_iff, Reads, byteNames, and_assoc]

theorem not_reads_of_spoils (hf : f ∈ c.fields) (h : all.Spoils Fits f) : ¬Reads all f.1 := by
  obtain ⟨name, value⟩ := f
  obtain ⟨hn, n, rfl⟩ | ⟨ps, he⟩ := c.fields_cases _ hf
  -- A number is read as a byte or as a word, by its name alone.
  · by_cases hb : name ∈ byteNames
    · simp [Reads, hn, hb, h.get?_uint8? hb]
    · simp [Reads, hn, hb, h.get?_int32? hb]
  · obtain ⟨rfl, rfl⟩ := Prod.mk.inj he
    obtain h | ⟨v, hv, ⟨⟨_, hi⟩, _⟩ | hd⟩ := h
    · simp [Reads, Json.Fields.get?_of_values_nil h]
    · contradiction
    -- One damaged point is enough.
    · obtain ⟨items, rfl, _, hp, j, hj, hd⟩ := hd.exists_item
      obtain ⟨p, -, rfl⟩ := List.mem_map.mp hp
      have hnone := Point.mapM_ofJson?_eq_none hj (Point.ofJson?_of_damaged hd)
      simp [Reads, Json.Fields.get?_of_values hv, Json.array?, hnone]

theorem ofFields?_of_shows (hc : c.InWords) (h : all.Shows c.fields) :
    ofFields? all c.kind = some c := by
  cases c <;>
    simp only [fields, spanFields, List.cons_append, List.nil_append, Json.Fields.shows_cons,
      Json.Fields.shows_nil, Json.WrittenAs.integer_iff, Json.WrittenAs.uint8_iff, exists_eq_right,
      InWords, Point.InWords] at h hc
  case polyline ps color =>
    obtain ⟨⟨v, hv, hw⟩, hcolor, _⟩ := h
    obtain ⟨items, rfl, hitems⟩ := hw.exists_items
    simp [kind, ofFields?, colorOf?, Json.Fields.get?, Json.uint8?_uint8, Json.array?, hv, hcolor,
      Point.mapM_ofJson?_of_writtenAs hc hitems]
  all_goals
    simp [kind, ofFields?, spanOf?, pointOf?, centerOf?, colorOf?, Json.Fields.get?,
      Json.int32?_integer, Json.uint8?_uint8, h, hc]

theorem ofJson?_object {v : Json} (h : all.values "type" = [v])
    (hv : (Json.string c.kind).WrittenAs v) : ofJson? (.object all) = ofFields? all c.kind := by
  rw [ofJson?, Json.Fields.get?_of_values h, Json.WrittenAs.string_iff.mp hv]; rfl

theorem ofJson?_of_writtenAs (hc : c.InWords) (h : c.toJson.WrittenAs j) : ofJson? j = some c := by
  obtain ⟨all, rfl, hs⟩ := h.exists_shows c.nodup_names
  have ⟨⟨_, ht, hv⟩, hs⟩ := Json.Fields.shows_cons.mp hs
  rw [ofJson?_object ht hv, ofFields?_of_shows hc hs]

theorem ofJson?_of_damaged (h : Json.Damaged Fits c.toJson j) : ofJson? j = none := by
  obtain ⟨all, rfl, f, hf, hd, hs⟩ := h.exists_spoils c.nodup_names
  rcases List.mem_cons.mp hf with rfl | hf
  -- A type can only be gone: it is no number, and there is nothing inside it.
  · obtain h | ⟨_, _, ⟨⟨_, hi⟩, _⟩ | hd⟩ := hd
    · rw [ofJson?, Json.Fields.get?_of_values_nil h]; rfl
    · contradiction
    · nomatch hd
  · have hn := (List.nodup_cons.mp c.nodup_names).left
    have hne : "type" ≠ f.1 := fun he => hn (List.mem_map.mpr ⟨f, hf, he.symm⟩)
    have ⟨_, ht, hv⟩ := hs _ (Json.Fields.mem_without.mpr ⟨List.mem_cons_self, hne⟩)
    rw [ofJson?_object ht hv, ← Option.not_isSome_iff_eq_none, isSome_ofFields?_iff]
    exact fun h => not_reads_of_spoils hf hd (h f hf)

-- A command is the only one that comes back from what is written for it, in whatever way that is
-- done, and nothing comes back once a field or the type is gone or a number does not fit.
theorem json_faithful (hc : c.InWords) :
    (∀ j, c.toJson.WrittenAs j → ofJson? j = some c) ∧
      (∀ d : Command, d.InWords → d ≠ c → ∀ j, c.toJson.WrittenAs j → ¬d.toJson.WrittenAs j) ∧
        ∀ j, Json.Damaged Fits c.toJson j → ofJson? j = none := by
  refine ⟨fun j => ofJson?_of_writtenAs hc, fun d hd hne j hw hw' => hne ?_,
    fun j => ofJson?_of_damaged⟩
  exact Option.some.inj ((ofJson?_of_writtenAs hd hw').symm.trans (ofJson?_of_writtenAs hc hw))

-- The point of a polyline is written with `y` first and among other fields, and so is the polyline.
-- Then `x` is no integer any more.
theorem json_faithful_polyline :
    let c := polyline [⟨-1, 2⟩] 4
    let point := fun x => Json.object [("y", .integer 2), ("z", .null), ("x", x)]
    let j := fun x => Json.object
      [("points", .array [point x]), ("color", .integer 4), ("id", .null), ("type", .string c.kind)]
    c.InWords ∧ ofJson? (j (.integer (-1))) = some c ∧
      ¬(polyline [⟨2, -1⟩] 4).toJson.WrittenAs (j (.integer (-1))) ∧
        ofJson? (j (.decimal "-1.0")) = none := by
  intro c point j
  have hc : c.InWords := by simp [c, InWords, Point.InWords, InWord]
  have hd : (polyline [⟨2, -1⟩] 4).InWords := by simp [InWords, Point.InWords, InWord]
  have hp : (Point.toJson ⟨-1, 2⟩).WrittenAs (point (.integer (-1))) :=
    .object [("z", .null)] (List.forall₂_same.mpr fun v _ => .refl v) (by simp)
      (List.perm_append_singleton ("x", _) [("y", _), ("z", _)])
  have hpoints : (Json.array [Point.toJson ⟨-1, 2⟩]).WrittenAs (.array [point (.integer (-1))]) :=
    .array (.cons hp .nil)
  have hj : c.toJson.WrittenAs (j (.integer (-1))) :=
    .object [("id", .null)] (.cons (.refl _) (.cons hpoints (.cons (.refl _) .nil)))
      (by simp [c, fields])
      (List.perm_append_singleton ("type", _) [("points", _), ("color", _), ("id", _)])
  have hbad : Json.Damaged Fits c.toJson (j (.decimal "-1.0")) :=
    .field hj (.tail _ (.head _))
      (.item hpoints (i := 0) rfl (.replaced hp (.head _) (by simp [Fits])))
  have h := json_faithful hc
  exact ⟨hc, h.1 _ hj, h.2.1 _ hd (by simp [c]) _ hj, h.2.2 _ hbad⟩

end Command

end PenStream
