import Mathlib.Data.List.Nodup
import Conveyance.Lib.Cbor

/-!
# The CBOR grammar

`Tree` is the syntax of data items with all the choices a writer has. `Tree.WellFormed` and
`Tree.Strict` restrict it, `Tree.height` measures it. `Item.tree` is the choice the writer of
this library makes, and `bytes_tree` that it does.
-/

namespace Lib.Cbor

/-! ## Arguments -/

/-- The number an octet string spells, most significant octet first. -/
def ofBigEndian : Bytes → Nat
  | [] => 0
  | b :: bs => b.toNat * 256 ^ bs.length + ofBigEndian bs

theorem bigEndian_length (count n : Nat) : (bigEndian count n).length = count := by
  induction count with
  | zero => rfl
  | succ count ih => rw [bigEndian, List.length_cons, ih]

theorem ofBigEndian_lt (bs : Bytes) : ofBigEndian bs < 256 ^ bs.length := by
  induction bs with
  | nil => exact Nat.one_pos
  | cons b bs ih =>
    have hb : b.toNat + 1 ≤ 256 := b.toNat_lt
    calc b.toNat * 256 ^ bs.length + ofBigEndian bs
        < b.toNat * 256 ^ bs.length + 256 ^ bs.length := Nat.add_lt_add_left ih _
      _ = (b.toNat + 1) * 256 ^ bs.length := by rw [Nat.add_mul, Nat.one_mul]
      _ ≤ 256 * 256 ^ bs.length := Nat.mul_le_mul_right _ hb
      _ = 256 ^ (b :: bs).length := by rw [List.length_cons, Nat.pow_succ, Nat.mul_comm]

/-- What is read back is what fits into the octets. -/
theorem ofBigEndian_bigEndian (count n : Nat) :
    ofBigEndian (bigEndian count n) = n % 256 ^ count := by
  induction count with
  | zero => rw [Nat.pow_zero, Nat.mod_one]; rfl
  | succ count ih =>
    rw [bigEndian, ofBigEndian, ih, bigEndian_length, UInt8.toNat_ofNat', Nat.mod_mod,
      Nat.pow_succ, Nat.mod_mul, Nat.add_comm, Nat.mul_comm (n / 256 ^ count % 256)]

/-- Only the low octets of a number are written. -/
theorem bigEndian_add_mul (count n k : Nat) :
    bigEndian count (n + 256 ^ count * k) = bigEndian count n := by
  induction count generalizing k with
  | zero => rfl
  | succ count ih =>
    have hpow : 256 ^ (count + 1) * k = 256 ^ count * (256 * k) := by
      rw [Nat.pow_succ, Nat.mul_assoc]
    have hpos : 0 < 256 ^ count := Nat.pow_pos (by decide)
    rw [bigEndian, bigEndian, hpow, ih, Nat.add_mul_div_left _ _ hpos, Nat.add_mul_mod_self_left]

theorem bigEndian_ofBigEndian (bs : Bytes) : bigEndian bs.length (ofBigEndian bs) = bs := by
  induction bs with
  | nil => rfl
  | cons b bs ih =>
    have hlt := ofBigEndian_lt bs
    have hpos : 0 < 256 ^ bs.length := Nat.pow_pos (by decide)
    rw [List.length_cons, bigEndian, ofBigEndian, Nat.add_comm, Nat.mul_comm,
      bigEndian_add_mul, ih, Nat.add_mul_div_left _ _ hpos, Nat.div_eq_of_lt hlt, Nat.zero_add,
      Nat.mod_eq_of_lt b.toNat_lt, UInt8.ofNat_toNat]

/-- How an argument is written: in the initial octet, or in the octets that follow it. -/
inductive Width where
  | immediate
  | one
  | two
  | four
  | eight
deriving DecidableEq

def Width.octets : Width → Nat
  | .immediate => 0
  | .one => 1
  | .two => 2
  | .four => 4
  | .eight => 8

/-- Arguments below this fit. -/
def Width.limit : Width → Nat
  | .immediate => 24
  | w => 256 ^ w.octets

/-- The additional information that announces the argument. -/
def Width.info (n : Nat) : Width → Nat
  | .immediate => n
  | .one => 24
  | .two => 25
  | .four => 26
  | .eight => 27

/-- The initial octet, and the argument behind it. -/
def Width.head (w : Width) (major n : Nat) : Bytes :=
  UInt8.ofNat (major * 32 + w.info n) :: bigEndian w.octets n

/-- The head of an item of indefinite length. -/
def openHead (major : Nat) : UInt8 := UInt8.ofNat (major * 32 + 31)

/-- It ends what is of indefinite length. -/
def breakOctet : UInt8 := 0xff

/-! ## Items -/

/-- A data item together with how it is written: the width of every argument, and whether a
string, array or map is of definite or of indefinite length. -/
inductive Tree where
  | integer (negative : Bool) (w : Width) (n : Nat)
  | string (text : Bool) (w : Width) (content : Bytes)
  | chunked (text : Bool) (chunks : List (Width × Bytes))
  | array (w : Width) (items : List Tree)
  | arrayOpen (items : List Tree)
  | map (w : Width) (entries : List (Tree × Tree))
  | mapOpen (entries : List (Tree × Tree))
  | tag (w : Width) (n : Nat) (item : Tree)
  /-- A simple value in the initial octet: 20 to 23 are false, true, null and undefined. -/
  | simple (n : Nat)
  /-- A simple value in the octet behind the initial one. -/
  | simpleByte (b : UInt8)
  | half (bits : Octets 2)
  | single (bits : Octets 4)
  | double (bits : Octets 8)

def integerMajor (negative : Bool) : Nat := if negative then 1 else 0

def stringMajor (text : Bool) : Nat := if text then 3 else 2

def chunkBytes (text : Bool) (chunk : Width × Bytes) : Bytes :=
  chunk.1.head (stringMajor text) chunk.2.length ++ chunk.2

mutual
/-- The octets of an item. -/
def Tree.bytes : Tree → Bytes
  | .integer negative w n => w.head (integerMajor negative) n
  | .string text w content => w.head (stringMajor text) content.length ++ content
  | .chunked text chunks => openHead (stringMajor text) ::
    (chunks.flatMap (chunkBytes text) ++ [breakOctet])
  | .array w items => w.head 4 items.length ++ itemsBytes items
  | .arrayOpen items => openHead 4 :: (itemsBytes items ++ [breakOctet])
  | .map w entries => w.head 5 entries.length ++ entriesBytes entries
  | .mapOpen entries => openHead 5 :: (entriesBytes entries ++ [breakOctet])
  | .tag w n item => w.head 6 n ++ item.bytes
  | .simple n => [UInt8.ofNat (7 * 32 + n)]
  | .simpleByte b => [0xf8, b]
  | .half bits => 0xf9 :: bits.1
  | .single bits => 0xfa :: bits.1
  | .double bits => 0xfb :: bits.1
def itemsBytes : List Tree → Bytes
  | [] => []
  | t :: ts => t.bytes ++ itemsBytes ts
def entriesBytes : List (Tree × Tree) → Bytes
  | [] => []
  | (key, value) :: es => key.bytes ++ (value.bytes ++ entriesBytes es)
end

mutual
/-- Every argument fits its width. -/
def Tree.WellFormed : Tree → Prop
  | .integer _ w n => n < w.limit
  | .string _ w content => content.length < w.limit
  | .chunked _ chunks => ∀ chunk ∈ chunks, chunk.2.length < chunk.1.limit
  | .array w items => items.length < w.limit ∧ WellFormedItems items
  | .arrayOpen items => WellFormedItems items
  | .map w entries => entries.length < w.limit ∧ WellFormedEntries entries
  | .mapOpen entries => WellFormedEntries entries
  | .tag w n item => n < w.limit ∧ item.WellFormed
  | .simple n => n < 24
  | _ => True
def WellFormedItems : List Tree → Prop
  | [] => True
  | t :: ts => t.WellFormed ∧ WellFormedItems ts
def WellFormedEntries : List (Tree × Tree) → Prop
  | [] => True
  | (key, value) :: es => key.WellFormed ∧ value.WellFormed ∧ WellFormedEntries es
end

mutual
/-- How deep the deepest item lies below this one. -/
def Tree.height : Tree → Nat
  | .array _ items => heightItems items
  | .arrayOpen items => heightItems items
  | .map _ entries => heightEntries entries
  | .mapOpen entries => heightEntries entries
  | .tag _ _ item => item.height + 1
  | _ => 0
def heightItems : List Tree → Nat
  | [] => 0
  | t :: ts => max (t.height + 1) (heightItems ts)
def heightEntries : List (Tree × Tree) → Nat
  | [] => 0
  | (key, value) :: es => max (max (key.height + 1) (value.height + 1)) (heightEntries es)
end

/-- Octets that spell a text. -/
def Utf8 (b : Bytes) : Prop := (ByteArray.mk b.toArray).IsValidUTF8

/-- The octets of a text string, its chunks put together. -/
def Tree.text : Tree → Option Bytes
  | .string true _ content => some content
  | .chunked true chunks => some (chunks.flatMap Prod.snd)
  | _ => none

mutual
/-- No tags; keys are texts, distinct within a map; texts are UTF-8, chunk by chunk; and of the
simple values in the initial octet only false, true, null and undefined. -/
def Tree.Strict : Tree → Prop
  | .string text _ content => text = true → Utf8 content
  | .chunked text chunks => text = true → ∀ chunk ∈ chunks, Utf8 chunk.2
  | .array _ items => StrictItems items
  | .arrayOpen items => StrictItems items
  | .map _ entries => StrictEntries entries ∧ (entries.map fun e => e.1.text).Nodup
  | .mapOpen entries => StrictEntries entries ∧ (entries.map fun e => e.1.text).Nodup
  | .tag _ _ _ => False
  | .simple n => 20 ≤ n
  | _ => True
def StrictItems : List Tree → Prop
  | [] => True
  | t :: ts => t.Strict ∧ StrictItems ts
def StrictEntries : List (Tree × Tree) → Prop
  | [] => True
  | (key, value) :: es => key.text.isSome ∧ key.Strict ∧ value.Strict ∧ StrictEntries es
end

/-! ## Items as the writer writes them -/

/-- The shortest width an argument fits. -/
def Width.shortest (n : Nat) : Width :=
  if n < 24 then .immediate
  else if n < 2 ^ 8 then .one
  else if n < 2 ^ 16 then .two
  else if n < 2 ^ 32 then .four
  else .eight

theorem Width.head_shortest (major n : Nat) :
    (Width.shortest n).head major n = Cbor.head major n := by
  unfold Width.shortest Cbor.head
  split_ifs <;> rfl

variable {n : Nat} {items : List Item} {entries : List (String × Item)} {ts : List Tree}
  {es : List (Tree × Tree)}

/-- The shortest width is wide enough. -/
theorem Width.lt_limit_shortest (hn : n < 2 ^ 64) : n < (Width.shortest n).limit := by
  unfold Width.shortest
  split_ifs with h1 h2 h3 h4
  · exact h1
  · exact h2
  · exact h3
  · exact h4
  · exact hn

/-- The octets of a text. -/
def utf8 (s : String) : Bytes := s.toUTF8.data.toList

/-- A text as the writer writes it. -/
def textTree (s : String) : Tree := .string true (.shortest (utf8 s).length) (utf8 s)

mutual
/-- An item, every length definite and every argument as short as can be. -/
def Item.tree : Item → Tree
  | .unsigned n => .integer false (.shortest n.toNat) n.toNat
  | .negative n => .integer true (.shortest n.toNat) n.toNat
  | .bytes b => .string false (.shortest b.length) b
  | .text s => textTree s
  | .array items => .array (.shortest items.length) (itemTrees items)
  | .map entries => .map (.shortest entries.length) (entryTrees entries)
  | .bool false => .simple 20
  | .bool true => .simple 21
  | .null => .simple 22
  | .double bits => .double ⟨bigEndian 8 bits.toNat, bigEndian_length 8 _⟩
def itemTrees : List Item → List Tree
  | [] => []
  | x :: xs => x.tree :: itemTrees xs
def entryTrees : List (String × Item) → List (Tree × Tree)
  | [] => []
  | (key, x) :: es => (textTree key, x.tree) :: entryTrees es
end

theorem itemTrees_eq_map (items : List Item) : itemTrees items = items.map Item.tree := by
  induction items with
  | nil => rfl
  | cons x xs ih => rw [itemTrees, ih, List.map_cons]

theorem entryTrees_eq_map (entries : List (String × Item)) :
    entryTrees entries = entries.map fun e => (textTree e.1, e.2.tree) := by
  induction entries with
  | nil => rfl
  | cons e es ih => rw [entryTrees, ih, List.map_cons]

/-- Induction on an item, with the hypothesis for everything in it. -/
@[elab_as_elim]
theorem Item.induct {P : Item → Prop} (unsigned : ∀ n, P (.unsigned n))
    (negative : ∀ n, P (.negative n)) (bytes : ∀ b, P (.bytes b)) (text : ∀ s, P (.text s))
    (array : ∀ items, (∀ x ∈ items, P x) → P (.array items))
    (map : ∀ entries, (∀ e ∈ entries, P e.2) → P (.map entries)) (bool : ∀ b, P (.bool b))
    (null : P .null) (double : ∀ bits, P (.double bits)) (item : Item) : P item :=
  @Item.rec P (fun items => ∀ x ∈ items, P x) (fun entries => ∀ e ∈ entries, P e.2)
    (fun e => P e.2) unsigned negative bytes text array map bool null double
    (List.forall_mem_nil _)
    (fun _ _ hx hxs => List.forall_mem_cons.mpr ⟨hx, hxs⟩)
    (List.forall_mem_nil _)
    (fun _ _ he hes => List.forall_mem_cons.mpr ⟨he, hes⟩)
    (fun _ _ hv => hv) item

theorem bytes_textTree (s : String) : (textTree s).bytes = writeText s := by
  show (Width.shortest (utf8 s).length).head 3 (utf8 s).length ++ utf8 s = _
  rw [Width.head_shortest]
  rfl

theorem itemsBytes_itemTrees (h : ∀ x ∈ items, x.tree.bytes = write x) :
    itemsBytes (itemTrees items) = writeItems items := by
  induction items with
  | nil => rfl
  | cons x xs ih =>
    obtain ⟨hx, hxs⟩ := List.forall_mem_cons.mp h
    rw [itemTrees, itemsBytes, writeItems, hx, ih hxs]

theorem entriesBytes_entryTrees (h : ∀ e ∈ entries, e.2.tree.bytes = write e.2) :
    entriesBytes (entryTrees entries) = writeEntries entries := by
  induction entries with
  | nil => rfl
  | cons e es ih =>
    obtain ⟨he, hes⟩ := List.forall_mem_cons.mp h
    rw [entryTrees, entriesBytes, writeEntries, he, ih hes, bytes_textTree, List.append_assoc]

/-- **The writer writes the item's tree.** -/
theorem bytes_tree (item : Item) : item.tree.bytes = write item := by
  induction item using Item.induct with
  | unsigned n => exact Width.head_shortest 0 n.toNat
  | negative n => exact Width.head_shortest 1 n.toNat
  | bytes b =>
    show (Width.shortest b.length).head 2 b.length ++ b = _
    rw [Width.head_shortest, write]
  | text s => exact bytes_textTree s
  | array items ih =>
    rw [Item.tree, Tree.bytes, itemsBytes_itemTrees ih, itemTrees_eq_map, List.length_map,
      Width.head_shortest, write]
  | map entries ih =>
    rw [Item.tree, Tree.bytes, entriesBytes_entryTrees ih, entryTrees_eq_map, List.length_map,
      Width.head_shortest, write]
  | bool b => cases b <;> rfl
  | null | double => rfl

/-! ### Lengths fit their widths -/

theorem wellFormedItems_iff : WellFormedItems ts ↔ ∀ t ∈ ts, t.WellFormed := by
  induction ts with
  | nil => simp [WellFormedItems]
  | cons t ts ih => rw [WellFormedItems, ih, List.forall_mem_cons]

theorem wellFormedEntries_iff :
    WellFormedEntries es ↔ ∀ e ∈ es, e.1.WellFormed ∧ e.2.WellFormed := by
  induction es with
  | nil => simp [WellFormedEntries]
  | cons e es ih => rw [WellFormedEntries, ih, List.forall_mem_cons, and_assoc]

theorem head_pos (major n : Nat) : 0 < (Cbor.head major n).length := by
  unfold Cbor.head
  split_ifs <;> exact Nat.succ_pos _

/-- Every item has an octet. -/
theorem write_pos (item : Item) : 0 < (write item).length := by
  cases item with
  | unsigned n => exact head_pos 0 _
  | negative n => exact head_pos 1 _
  | bytes b => rw [write, List.length_append]; exact Nat.add_pos_left (head_pos 2 _) _
  | text s => rw [write, writeText, List.length_append]; exact Nat.add_pos_left (head_pos 3 _) _
  | array items => rw [write, List.length_append]; exact Nat.add_pos_left (head_pos 4 _) _
  | map entries => rw [write, List.length_append]; exact Nat.add_pos_left (head_pos 5 _) _
  | bool b => cases b <;> exact Nat.one_pos
  | null => exact Nat.one_pos
  | double bits => exact Nat.succ_pos _

theorem utf8_length_le_writeText (s : String) : (utf8 s).length ≤ (writeText s).length := by
  rw [writeText, List.length_append]
  exact Nat.le_add_left _ _

/-- No item is longer than the list, nor are there more items than octets. -/
theorem length_writeItems (items : List Item) :
    items.length ≤ (writeItems items).length ∧
      ∀ x ∈ items, (write x).length ≤ (writeItems items).length := by
  induction items with
  | nil => exact ⟨Nat.le_refl _, List.forall_mem_nil _⟩
  | cons x xs ih =>
    have hx := write_pos x
    rw [writeItems, List.length_append, List.length_cons]
    refine ⟨by omega, List.forall_mem_cons.mpr ⟨by omega, fun y hy => ?_⟩⟩
    have hy' := ih.2 y hy
    omega

theorem length_writeEntries (entries : List (String × Item)) :
    entries.length ≤ (writeEntries entries).length ∧
      ∀ e ∈ entries, (utf8 e.1).length ≤ (writeEntries entries).length ∧
        (write e.2).length ≤ (writeEntries entries).length := by
  induction entries with
  | nil => exact ⟨Nat.le_refl _, List.forall_mem_nil _⟩
  | cons e es ih =>
    have hx := write_pos e.2
    have hk := utf8_length_le_writeText e.1
    rw [writeEntries, List.length_append, List.length_append, List.length_cons]
    refine ⟨by omega, List.forall_mem_cons.mpr ⟨by omega, fun y hy => ?_⟩⟩
    have hy' := ih.2 y hy
    omega

theorem writeEntries_append (es es' : List (String × Item)) :
    writeEntries (es ++ es') = writeEntries es ++ writeEntries es' := by
  induction es with
  | nil => rfl
  | cons e es ih => rw [List.cons_append, writeEntries, writeEntries, ih, ← List.append_assoc]

/-- A value of a map contributes its own length. -/
theorem length_write_map (before after : List (String × Item)) (key : String) (x y : Item) :
    (write (.map (before ++ (key, x) :: after))).length + (write y).length =
      (write (.map (before ++ (key, y) :: after))).length + (write x).length := by
  simp only [write, writeEntries_append, writeEntries, List.length_append, List.length_cons]
  omega

theorem head_short {major : Nat} (h : n < 24) : head major n = [UInt8.ofNat (major * 32 + n)] :=
  if_pos h

/-- A short text ends where its length says. -/
theorem writeText_append_inj {s t : String} {x y : Bytes} (hs : (utf8 s).length < 24)
    (ht : (utf8 t).length < 24) (h : writeText s ++ x = writeText t ++ y) : s = t ∧ x = y := by
  have hw : ∀ u : String, (utf8 u).length < 24 →
      writeText u = UInt8.ofNat (3 * 32 + (utf8 u).length) :: utf8 u := fun u hu => by
    show head 3 (utf8 u).length ++ utf8 u = _
    rw [head_short hu]
    rfl
  rw [hw s hs, hw t ht, List.cons_append, List.cons_append, List.cons.injEq] at h
  have hlen : (utf8 s).length = (utf8 t).length := by
    have hnat := congrArg UInt8.toNat h.1
    simp only [UInt8.toNat_ofNat'] at hnat
    omega
  obtain ⟨htext, hrest⟩ := List.append_inj h.2 hlen
  exact ⟨toUTF8_inj htext, hrest⟩

/-- What the writer writes is well formed if its length is a 64-bit number. -/
theorem wellFormed_tree (item : Item) (h : (write item).length < 2 ^ 64) :
    item.tree.WellFormed := by
  induction item using Item.induct with
  | unsigned n | negative n => exact Width.lt_limit_shortest n.toNat_lt
  | bytes b =>
    rw [write, List.length_append] at h
    exact Width.lt_limit_shortest (Nat.lt_of_le_of_lt (Nat.le_add_left _ _) h)
  | text s => exact Width.lt_limit_shortest (Nat.lt_of_le_of_lt (utf8_length_le_writeText s) h)
  | array items ih =>
    rw [write, List.length_append] at h
    obtain ⟨hcount, hlen⟩ := length_writeItems items
    rw [Item.tree, itemTrees_eq_map, Tree.WellFormed, List.length_map, wellFormedItems_iff,
      List.forall_mem_map]
    refine ⟨Width.lt_limit_shortest (by omega), fun x hx => ih x hx ?_⟩
    have hx' := hlen x hx
    omega
  | map entries ih =>
    rw [write, List.length_append] at h
    obtain ⟨hcount, hlen⟩ := length_writeEntries entries
    rw [Item.tree, entryTrees_eq_map, Tree.WellFormed, List.length_map, wellFormedEntries_iff,
      List.forall_mem_map]
    refine ⟨Width.lt_limit_shortest (by omega), fun e he => ?_⟩
    have he' := hlen e he
    exact ⟨Width.lt_limit_shortest (by omega), ih e he (by omega)⟩
  | bool b =>
    cases b with
    | false => exact (by decide : 20 < 24)
    | true => exact (by decide : 21 < 24)
  | null => exact (by decide : 22 < 24)
  | double bits => trivial

/-! ### Keys and texts -/

theorem strictItems_iff : StrictItems ts ↔ ∀ t ∈ ts, t.Strict := by
  induction ts with
  | nil => simp [StrictItems]
  | cons t ts ih => rw [StrictItems, ih, List.forall_mem_cons]

theorem strictEntries_iff :
    StrictEntries es ↔ ∀ e ∈ es, e.1.text.isSome ∧ e.1.Strict ∧ e.2.Strict := by
  induction es with
  | nil => simp [StrictEntries]
  | cons e es ih => rw [StrictEntries, ih, List.forall_mem_cons, and_assoc, and_assoc]

/-- A string is UTF-8. -/
theorem strict_textTree (s : String) : (textTree s).Strict := by
  intro _
  rw [Utf8, utf8, Array.toArray_toList]
  exact s.isValidUTF8

theorem strict_array : (Item.array items).tree.Strict ↔ ∀ x ∈ items, x.tree.Strict := by
  rw [Item.tree, itemTrees_eq_map, Tree.Strict, strictItems_iff, List.forall_mem_map]

/-- A map is strict when its keys are distinct and its values are strict. -/
theorem strict_map :
    (Item.map entries).tree.Strict ↔
      (entries.map Prod.fst).Nodup ∧ ∀ e ∈ entries, e.2.tree.Strict := by
  have hkeys : ((entryTrees entries).map fun e => e.1.text) =
      (entries.map Prod.fst).map fun key => some (utf8 key) := by
    rw [entryTrees_eq_map, List.map_map, List.map_map]
    rfl
  have hinj : Function.Injective fun key => some (utf8 key) :=
    fun _ _ heq => toUTF8_inj (Option.some.inj heq)
  rw [Item.tree, Tree.Strict, hkeys, List.nodup_map_iff hinj, entryTrees_eq_map, strictEntries_iff,
    List.forall_mem_map, and_comm]
  exact and_congr_right fun _ => forall₂_congr fun e _ =>
    ⟨fun h => h.2.2, fun h => ⟨rfl, strict_textTree e.1, h⟩⟩

/-! ### Heights -/

theorem heightItems_le_iff : heightItems ts ≤ n ↔ ∀ t ∈ ts, t.height + 1 ≤ n := by
  induction ts with
  | nil => simp [heightItems]
  | cons t ts ih => rw [heightItems, Nat.max_le, ih, List.forall_mem_cons]

/-- Keys are never the deepest. -/
theorem heightEntries_cons (key : String) (x : Item) (es : List (String × Item)) :
    heightEntries (entryTrees ((key, x) :: es)) =
      max (x.tree.height + 1) (heightEntries (entryTrees es)) := by
  rw [entryTrees, heightEntries]
  show max (max (0 + 1) (x.tree.height + 1)) _ = _
  rw [Nat.max_eq_right (Nat.add_le_add_right (Nat.zero_le _) 1)]

theorem heightEntries_le_iff :
    heightEntries (entryTrees entries) ≤ n ↔ ∀ e ∈ entries, e.2.tree.height + 1 ≤ n := by
  induction entries with
  | nil => simp [entryTrees, heightEntries]
  | cons e es ih => rw [heightEntries_cons, Nat.max_le, ih, List.forall_mem_cons]

end Lib.Cbor
