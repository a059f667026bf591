/-
SexprSsa.Proofs.JsonCodec — decoding undoes encoding, format by format.

`Exact` relates an encoder and a decoder: what is encoded is plain JSON, and
the decoder gives back the value it was made from if it may go as deep as
that JSON nests and if the value fits the format, and nothing otherwise. Each
way of putting formats together keeps this: arrays, values that may be null,
records, variants and tables.
-/
import SexprSsa.Json.Decode
import SexprSsa.Proofs.JsonLayout
import Mathlib.Algebra.Ring.Nat

namespace SexprSsa.Json

variable {α β κ : Type}

/-! ## Depth and form -/

theorem depthItems_le_iff {items : List Json} {n : Nat} :
    depthItems items ≤ n ↔ ∀ item ∈ items, item.depth ≤ n := by
  induction items with
  | nil => simp [depthItems]
  | cons item items ih => rw [depthItems, Nat.max_le, ih, List.forall_mem_cons]

theorem depthMembers_le_iff {members : List (String × Json)} {n : Nat} :
    depthMembers members ≤ n ↔ ∀ member ∈ members, member.2.depth ≤ n := by
  induction members with
  | nil => simp [depthMembers]
  | cons member members ih => rw [depthMembers, Nat.max_le, ih, List.forall_mem_cons]

@[simp] theorem depth_array_le_succ {items : List Json} {n : Nat} :
    (Json.array items).depth ≤ n + 1 ↔ ∀ item ∈ items, item.depth ≤ n := by
  rw [depth, Nat.add_le_add_iff_right, depthItems_le_iff]

@[simp] theorem depth_record_le_succ {members : List (String × Json)} {n : Nat} :
    (record members).depth ≤ n + 1 ↔ ∀ member ∈ members, member.2.depth ≤ n := by
  rw [record, depth, Nat.add_le_add_iff_right, depthMembers_le_iff, List.forall_mem_map]

@[simp] theorem depth_array_ne_zero (items : List Json) : (Json.array items).depth ≠ 0 := by
  simp [depth]

@[simp] theorem depth_record_ne_zero (members : List (String × Json)) :
    (record members).depth ≠ 0 := by
  simp [record, depth]

@[simp] theorem depth_tagged (tag : String) (payload : Json) :
    (tagged tag payload).depth = payload.depth + 1 := by
  simp [tagged, depth, depthMembers]

@[simp] theorem depth_ofText (s : String) : (ofText s).depth = 0 := rfl
@[simp] theorem depth_ofNat (n : Nat) : (ofNat n).depth = 0 := rfl
@[simp] theorem depth_integer (n : Int) : (Json.integer n).depth = 0 := rfl
@[simp] theorem depth_bool (b : Bool) : (Json.bool b).depth = 0 := rfl
@[simp] theorem depth_null : Json.null.depth = 0 := rfl

@[simp] theorem plain_ofNat (n : Nat) : Plain (ofNat n) := trivial
@[simp] theorem plain_integer (n : Int) : Plain (.integer n) := trivial
@[simp] theorem plain_bool (b : Bool) : Plain (.bool b) := trivial
@[simp] theorem plain_null : Plain .null := trivial
@[simp] theorem plain_ofText (s : String) : Plain (ofText s) := isRaw_escape s

theorem plain_array {items : List Json} (h : ∀ item ∈ items, Plain item) :
    Plain (.array items) := by
  induction items with
  | nil => trivial
  | cons item items ih =>
    obtain ⟨hitem, hitems⟩ := List.forall_mem_cons.1 h
    exact ⟨hitem, ih hitems⟩

theorem plain_record {members : List (String × Json)} (h : ∀ member ∈ members, Plain member.2) :
    Plain (record members) := by
  induction members with
  | nil => trivial
  | cons member members ih =>
    obtain ⟨hmember, hmembers⟩ := List.forall_mem_cons.1 h
    exact ⟨isRaw_escape member.1, hmember, ih hmembers⟩

theorem plain_tagged (tag : String) {payload : Json} (h : Plain payload) :
    Plain (tagged tag payload) :=
  ⟨isRaw_escape tag, h, trivial⟩

/-! ## Scalars -/

@[simp] theorem text?_ofText (s : String) : text? (ofText s) = some s := unescape?_escape s

@[simp] theorem bool?_bool (b : Bool) : bool? (.bool b) = some b := rfl

/-- A number is read if it has at most 32 bits. -/
theorem nat32?_ofNat_iff {n k : Nat} : nat32? (ofNat n) = some k ↔ n = k ∧ n < 2 ^ 32 := by
  have hbounds : (0 : Int) ≤ n ∧ (n : Int) ≤ ((0x100000000 : Nat) : Int) - 1 ↔ n < 2 ^ 32 := by
    omega
  simp only [nat32?, below?, within?, ofNat, hbounds]
  split
  · next hn =>
    rw [Option.map_some, Int.toNat_natCast, Option.some.injEq]
    exact ⟨fun h => ⟨h, hn⟩, And.left⟩
  · next hn => exact ⟨nofun, fun h => absurd h.2 hn⟩

@[simp] theorem int32?_integer (n : Int32) : int32? (.integer n.toInt) = some n := by
  have hlow := Int32.le_toInt n
  have hhigh := Int32.toInt_lt n
  have hbounds : -0x80000000 ≤ n.toInt ∧ n.toInt ≤ 0x7fffffff := by omega
  simp [int32?, within?, hbounds]

@[simp] theorem int64?_integer (n : Int64) : int64? (.integer n.toInt) = some n := by
  have hlow := Int64.le_toInt n
  have hhigh := Int64.toInt_lt n
  have hbounds : -0x8000000000000000 ≤ n.toInt ∧ n.toInt ≤ 0x7fffffffffffffff := by omega
  simp [int64?, within?, hbounds]

/-! ## Decoding what was encoded -/

/-- What is encoded is plain JSON and decodes to the same value, provided that it
nests at most as deep as the decoder may go and that the value fits the format. -/
structure Exact (encode : α → Json) (decode : Nat → Json → Option α) (fits : α → Prop) :
    Prop where
  plain : ∀ x, Plain (encode x)
  decode_iff : ∀ {x y : α} {depth : Nat},
    decode depth (encode x) = some y ↔ x = y ∧ (encode x).depth ≤ depth ∧ fits x

/-- Decoding item by item gives back the encoded list if each item comes back. -/
theorem mapM_eq_some_iff {encode : α → β} {decode : β → Option α} {fits : α → Prop}
    (h : ∀ {x y}, decode (encode x) = some y ↔ x = y ∧ fits x) {xs ys : List α} :
    (xs.map encode).mapM decode = some ys ↔ xs = ys ∧ ∀ x ∈ xs, fits x := by
  induction xs generalizing ys with
  | nil => simp
  | cons x xs ih =>
    simp only [List.map_cons, List.mapM_cons, Option.bind_eq_bind, Option.bind_eq_some_iff, h, ih,
      List.forall_mem_cons, Option.pure_def, Option.some.injEq]
    constructor
    · rintro ⟨_, ⟨rfl, hx⟩, _, ⟨rfl, hxs⟩, rfl⟩
      exact ⟨rfl, hx, hxs⟩
    · rintro ⟨rfl, hx, hxs⟩
      exact ⟨x, ⟨rfl, hx⟩, xs, ⟨rfl, hxs⟩, rfl⟩

theorem mapM_eq_some_map {xs : List α} {f : α → Option β} {g : α → β}
    (h : ∀ x ∈ xs, f x = some (g x)) : xs.mapM f = some (xs.map g) := by
  induction xs with
  | nil => rfl
  | cons x xs ih =>
    obtain ⟨hx, hxs⟩ := List.forall_mem_cons.1 h
    rw [List.mapM_cons, hx, ih hxs]
    rfl

section
variable {encode : α → Json} {decode : Nat → Json → Option α} {fits : α → Prop}

/-- Arrays of any length. -/
theorem Exact.list (h : Exact encode decode fits) :
    Exact (fun xs => .array (xs.map encode)) (list? decode) (fun xs => ∀ x ∈ xs, fits x) where
  plain xs := plain_array (List.forall_mem_map.2 fun x _ => h.plain x)
  decode_iff {xs ys depth} := by
    cases depth with
    | zero => simp [list?]
    | succ depth =>
      simp only [list?, mapM_eq_some_iff h.decode_iff, depth_array_le_succ, List.forall_mem_map]
      exact and_congr_right fun _ => forall₂_and

@[simp] theorem nullable?_null (decode : Nat → Json → Option α) (depth : Nat) :
    nullable? decode depth .null = some none := rfl

/-- A value where null may stand too, which is not what a value is encoded as. -/
theorem Exact.nullable_iff (h : Exact encode decode fits) {x : α} (hnull : encode x ≠ .null)
    {y : Option α} {depth : Nat} :
    nullable? decode depth (encode x) = some y ↔
      some x = y ∧ (encode x).depth ≤ depth ∧ fits x := by
  have hdecode : nullable? decode depth (encode x) = (decode depth (encode x)).map some := by
    cases hx : encode x <;> first | rfl | exact absurd hx hnull
  simp only [hdecode, Option.map_eq_some_iff, h.decode_iff]
  constructor
  · rintro ⟨_, ⟨rfl, hx⟩, rfl⟩
    exact ⟨rfl, hx⟩
  · rintro ⟨rfl, hx⟩
    exact ⟨x, ⟨rfl, hx⟩, rfl⟩

/-- Tables with their keys as text. -/
theorem Exact.table [DecidableEq κ] (h : Exact encode decode fits) {writeKey : κ → String}
    {readKey : String → Option κ} {fitsKey : κ → Prop}
    (hkey : ∀ {k k'}, readKey (escape (writeKey k)) = some k' ↔ k = k' ∧ fitsKey k) :
    Exact (fun t : Table κ α => record (t.entries.map fun e => (writeKey e.1, encode e.2)))
      (table? readKey decode) (fun t => ∀ e ∈ t.entries, fitsKey e.1 ∧ fits e.2) where
  plain t := plain_record (List.forall_mem_map.2 fun e _ => h.plain e.2)
  decode_iff {t u depth} := by
    cases depth with
    | zero => simp [table?]
    | succ depth =>
      have hentries : ∀ {entries : List (κ × α)},
          (t.entries.map fun e => (escape (writeKey e.1), encode e.2)).mapM
            (fun e => do return (← readKey e.1, ← decode depth e.2)) = some entries ↔
          t.entries = entries ∧
            ∀ e ∈ t.entries, (encode e.2).depth ≤ depth ∧ fitsKey e.1 ∧ fits e.2 := by
        refine mapM_eq_some_iff fun {e f} => ?_
        simp only [Option.bind_eq_bind, Option.bind_eq_some_iff, hkey, h.decode_iff,
          Option.pure_def, Option.some.injEq]
        constructor
        · rintro ⟨_, ⟨rfl, hfitsKey⟩, _, ⟨rfl, hdepth, hfits⟩, rfl⟩
          exact ⟨rfl, hdepth, hfitsKey, hfits⟩
        · rintro ⟨rfl, hdepth, hfitsKey, hfits⟩
          exact ⟨e.1, ⟨rfl, hfitsKey⟩, e.2, ⟨rfl, hdepth, hfits⟩, rfl⟩
      rw [depth_record_le_succ, List.forall_mem_map, ← forall₂_and]
      rw [record, List.map_map, table?, Option.bind_eq_bind, Option.bind_eq_some_iff]
      simp only [Option.pure_def, Option.some.injEq]
      constructor
      · rintro ⟨entries, hread, rfl⟩
        obtain ⟨rfl, hall⟩ := hentries.1 hread
        exact ⟨(Table.ofList_entries t).symm, hall⟩
      · rintro ⟨rfl, hall⟩
        exact ⟨t.entries, hentries.2 ⟨rfl, hall⟩, Table.ofList_entries t⟩

end

/-! ## Records -/

theorem decodeKeys_escape (members : List (String × Json)) :
    decodeKeys (members.map fun (key, value) => (escape key, value)) = some members := by
  rw [decodeKeys, List.mapM_map, mapM_eq_some_map (g := id)]
  · simp
  · simp

theorem field?_of_mem {members : List (String × Json)} (hnodup : (members.map Prod.fst).Nodup)
    {member : String × Json} (hmem : member ∈ members) :
    field? members member.1 = some (some member.2) := by
  have hfilter : members.filter (fun m => m.1 = member.1) = [member] := by
    induction members with
    | nil => simp at hmem
    | cons m members ih =>
      rw [List.map_cons, List.nodup_cons] at hnodup
      rcases List.mem_cons.1 hmem with rfl | hmem
      · have hrest : ∀ m ∈ members, m.1 ≠ member.1 := by
          rintro m hm heq
          exact hnodup.1 (heq ▸ List.mem_map_of_mem hm)
        simpa [List.filter_cons] using hrest
      · have hne : m.1 ≠ member.1 := by
          intro heq
          exact hnodup.1 (heq ▸ List.mem_map_of_mem hmem)
        rw [List.filter_cons_of_neg (by simpa using hne)]
        exact ih hnodup.2 hmem
  rw [field?, hfilter]

/-- Every field of a record is found if the names are those that it was written with. -/
@[simp] theorem someFields?_record (members : List (String × Json)) {names : List String}
    (hnames : members.map Prod.fst = names) (hnodup : names.Nodup) :
    someFields? names (record members) = some (members.map fun member => some member.2) := by
  subst hnames
  have hfields : members.mapM (field? members ∘ Prod.fst) =
      some (members.map fun member => some member.2) :=
    mapM_eq_some_map fun member hmem => field?_of_mem hnodup hmem
  simp only [someFields?, record, decodeKeys_escape]
  exact (List.mapM_map ..).trans hfields

@[simp] theorem fields?_record (members : List (String × Json)) {names : List String}
    (hnames : members.map Prod.fst = names) (hnodup : names.Nodup) :
    fields? names (record members) = some (members.map fun member => some member.2) :=
  someFields?_record members hnames hnodup

/-! ## Variants -/

@[simp] theorem variant?_ofText (depth : Nat) (name : String) :
    variant? depth (ofText name) = some (name, none) := by
  simp [variant?, ofText]

@[simp] theorem variant?_tagged_zero (name : String) (payload : Json) :
    variant? 0 (tagged name payload) = none := rfl

@[simp] theorem variant?_tagged (depth : Nat) (name : String) (payload : Json) :
    variant? (depth + 1) (tagged name payload) = some (name, some (depth, payload)) := by
  simp [variant?, tagged]

/-- Decoding goes on with the payload, one level down. -/
theorem variant?_tagged_bind (depth : Nat) (name : String) (payload : Json)
    (decode : String × Option (Nat × Json) → Option α) :
    (variant? (depth + 1) (tagged name payload) >>= decode) =
      decode (name, some (depth, payload)) := by
  rw [variant?_tagged, Option.bind_eq_bind, Option.bind_some]

end SexprSsa.Json
