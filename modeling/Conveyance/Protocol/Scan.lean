import Conveyance.Lib.CborGrammar
import Conveyance.Lib.Scanner
import Conveyance.Protocol.Message

/-!
# The structural preflight of a wire message (conveyance-protocol, message.rs)

`scan_cbor` walks the octets of a message once before they are deserialized. The
model threads the offset through the input as the source does; a tick is one call
of `scan_item`. Where the source counts depth upwards and refuses what lies deeper
than the bound, `scanItem` counts the levels that are left.
-/

namespace Conveyance.Protocol

open Lib Lib.Cbor Scanner

abbrev Scan := Scanner ProtocolError

def maxCborNestingDepth : Nat := 64

def truncatedCbor : ProtocolError := .cbor "truncated CBOR"

def takeByte : Scan UInt8 := octet truncatedCbor

/-- `usize` has 64 bits, so that every declared length is one; the end of the slice need not be. -/
def take (length : Nat) : Scan Bytes := do
  let offset ← position
  if 2 ^ 64 ≤ offset + length then fail .messageTooLarge
  else octets truncatedCbor length

/-- The argument of an item; `none` for indefinite length. -/
def readArgument (additional : Nat) : Scan (Option Nat) :=
  if additional ≤ 23 then pure (some additional)
  else if additional = 24 then do
    let b ← takeByte
    pure (some b.toNat)
  else if additional = 25 then do
    let bs ← take 2
    pure (some (ofBigEndian bs))
  else if additional = 26 then do
    let bs ← take 4
    pure (some (ofBigEndian bs))
  else if additional = 27 then do
    let bs ← take 8
    pure (some (ofBigEndian bs))
  else if additional = 31 then pure none
  else fail (.cbor "invalid CBOR additional information")

/-- Each chunk of a text has to be UTF-8 by itself. -/
def appendStringChunk (major length : Nat) (output : Bytes) : Scan Bytes := do
  let chunk ← take length
  if major = 3 ∧ (ByteArray.mk chunk.toArray).validateUTF8 = false then
    fail (.cbor "invalid CBOR UTF-8")
  else pure (output ++ chunk)

/-- One chunk of a string of indefinite length. -/
def scanChunk (major : Nat) (output : Bytes) : Scan Bytes := do
  let initial ← takeByte
  if initial.toNat / 32 ≠ major ∨ initial.toNat % 32 = 31 then
    fail (.cbor "invalid indefinite string chunk")
  else do
    let length ← readArgument (initial.toNat % 32)
    match length with
    | none => fail (.cbor "nested indefinite string chunk")
    | some length => appendStringChunk major length output

/-- A string in one piece, or in chunks up to the break. -/
def scanString (major additional : Nat) : Scan Bytes := do
  let length ← readArgument additional
  match length with
  | some length => appendStringChunk major length []
  | none => untilOctet breakOctet (scanChunk major) []

def scanTextKey : Scan Bytes := do
  let initial ← takeByte
  if initial.toNat / 32 ≠ 3 then fail .invalidMap
  else scanString 3 (initial.toNat % 32)

section Containers

-- `scan_item` one level further down
variable (child : Scan Unit)

def scanArray (additional : Nat) : Scan Unit := do
  let count ← readArgument additional
  match count with
  | some count => repeated (fun _ => child) count ()
  | none => untilOctet breakOctet (fun _ => child) ()

/-- In a map of indefinite length the break may not stand in a value's place. -/
def scanValue (definite : Bool) : Scan Unit :=
  if definite then child
  else do
    let missing ← nextIs breakOctet
    if missing then fail (.cbor "map is missing a value") else child

/-- A key not seen before, and its value. -/
def scanEntry (definite : Bool) (seen : List Bytes) : Scan (List Bytes) := do
  let key ← scanTextKey
  if key ∈ seen then fail .invalidMap
  else do
    scanValue child definite
    pure (key :: seen)

def scanMap (additional : Nat) : Scan Unit := do
  let count ← readArgument additional
  match count with
  | some count => do
    let _ ← repeated (scanEntry child true) count []
    pure ()
  | none => do
    let _ ← untilOctet breakOctet (scanEntry child false) []
    pure ()

end Containers

/-- Simple values and floats. -/
def scanSimple (additional : Nat) : Scan Unit :=
  if additional ≤ 19 ∨ additional = 31 then fail (.cbor "unexpected CBOR simple value")
  else if additional ≤ 23 then pure ()
  else if additional = 24 then do
    let _ ← takeByte
    pure ()
  else if additional = 25 then do
    let _ ← take 2
    pure ()
  else if additional = 26 then do
    let _ ← take 4
    pure ()
  else if additional = 27 then do
    let _ ← take 8
    pure ()
  else fail (.cbor "invalid CBOR additional information")

/-- What follows the initial octet of an item. -/
def scanBody (child : Scan Unit) (major additional : Nat) : Scan Unit :=
  match major with
  | 0 | 1 => do
    let argument ← readArgument additional
    if argument.isNone then fail (.cbor "indefinite integer") else pure ()
  | 2 | 3 => do
    let _ ← scanString major additional
    pure ()
  | 4 => scanArray child additional
  | 5 => scanMap child additional
  | 6 => fail (.cbor "CBOR tags are unsupported")
  | 7 => scanSimple additional
  | _ => panic

/-- One item, with so many levels left. Items below the last one are refused unread. -/
def scanItem : (levels : Nat) → Scan Unit
  | 0 => do tick; fail .nestingTooDeep
  | levels + 1 => do
    let initial ← do tick; takeByte
    scanBody (scanItem levels) (initial.toNat / 32) (initial.toNat % 32)

def scanFrom (input : Bytes) : Except (Fault ProtocolError) Unit × Cursor :=
  scanItem (maxCborNestingDepth + 1) input ⟨0, 0⟩

/-- One item, and nothing behind it. -/
def scanCbor (input : Bytes) : Except (Fault ProtocolError) Unit :=
  match scanFrom input with
  | (.error e, _) => .error e
  | (.ok _, c) => if c.offset ≠ input.length then .error (.err .trailingData) else .ok ()

/-- How often `scan_item` is called in a scan. -/
def itemScans (input : Bytes) : Nat := (scanFrom input).2.ticks

/-! ## Whatever is accepted is in the grammar -/

/-- An item the scanner may accept with so many levels left. -/
structure Good (levels : Nat) (t : Tree) : Prop where
  wellFormed : t.WellFormed
  strict : t.Strict
  height : t.height < levels

theorem meets_take (n : Nat) : Meets (take n) fun bs x => bs = x ∧ x.length = n := by
  refine Meets.position.bind fun _ offset hu => .ite (fun _ => .fail _) fun _ => ?_
  rw [hu]
  exact .octets _ n

/-- What the octets of an argument say, behind this additional information. -/
def Argument (additional : Nat) (bs : Bytes) : Option Nat → Prop
  | some n => ∃ w : Width, n < w.limit ∧ additional = w.info n ∧ bs = bigEndian w.octets n
  | none => additional = 31 ∧ bs = []

theorem meets_taken (w : Width) {additional : Nat} (hinfo : ∀ n, additional = w.info n)
    (hlimit : w.limit = 256 ^ w.octets) :
    Meets (do
      let bs ← take w.octets
      pure (some (ofBigEndian bs))) (Argument additional) := by
  refine (meets_take w.octets).bind fun u bs hu => .pure ⟨w, ?_, hinfo _, ?_⟩
  · rw [hlimit, ← hu.2]
    exact ofBigEndian_lt bs
  · rw [List.append_nil, hu.1, ← hu.2, bigEndian_ofBigEndian]

/-- What is read is an argument that fits the width its information names. -/
theorem meets_readArgument (additional : Nat) :
    Meets (readArgument additional) (Argument additional) := by
  unfold readArgument
  split_ifs with h23 h24 h25 h26 h27 h31
  · exact Meets.pure ⟨.immediate, by show additional < 24; omega, rfl, rfl⟩
  · subst h24
    refine (Meets.octet truncatedCbor).bind fun u b hu => Meets.pure ⟨.one, b.toNat_lt, rfl, ?_⟩
    rw [hu, List.append_nil]
    have hb := bigEndian_ofBigEndian [b]
    rw [ofBigEndian, ofBigEndian, List.length_nil, Nat.pow_zero, Nat.mul_one, Nat.add_zero] at hb
    exact hb.symm
  · subst h25
    exact meets_taken .two (fun _ => rfl) rfl
  · subst h26
    exact meets_taken .four (fun _ => rfl) rfl
  · subst h27
    exact meets_taken .eight (fun _ => rfl) rfl
  · exact .pure ⟨h31, rfl⟩
  · exact .fail _

/-- An initial octet is its major type and its additional information. -/
theorem initial_eq (b : UInt8) : UInt8.ofNat (b.toNat / 32 * 32 + b.toNat % 32) = b := by
  rw [Nat.div_add_mod', UInt8.ofNat_toNat]

variable {b : UInt8} {major n : Nat} {w : Width} {text : Bool} {content input : Bytes}
  {chunks : List (Width × Bytes)} {t : Tree} {c : Cursor}

/-- So the initial octet and the argument behind it are a head. -/
theorem head_of_argument (hmajor : b.toNat / 32 = major) (hinfo : b.toNat % 32 = w.info n) :
    w.head major n = b :: bigEndian w.octets n := by
  rw [Width.head, ← hmajor, ← hinfo, initial_eq]

section

variable (text : Bool)

theorem meets_appendStringChunk (n : Nat) (output : Bytes) :
    Meets (appendStringChunk (stringMajor text) n output) fun bs x =>
      bs.length = n ∧ x = output ++ bs ∧ (text = true → Utf8 bs) := by
  refine (meets_take n).bind fun u chunk hu =>
    .ite (fun _ => .fail _) fun hvalid => .pure ?_
  rw [List.append_nil, hu.1]
  refine ⟨hu.2, rfl, ?_⟩
  rintro rfl
  refine ByteArray.validateUTF8_eq_true_iff.mp ?_
  by_contra hnot
  exact hvalid ⟨rfl, by simpa using hnot⟩

/-- A chunk is of definite length and of the kind of its string. -/
theorem meets_scanChunk (output : Bytes) :
    Meets (scanChunk (stringMajor text) output) fun bs x =>
      ∃ chunk : Width × Bytes, bs = chunkBytes text chunk ∧ x = output ++ chunk.2 ∧
        chunk.2.length < chunk.1.limit ∧ (text = true → Utf8 chunk.2) := by
  refine (Meets.octet truncatedCbor).bind fun u initial hu =>
    Meets.ite (fun _ => Meets.fail _) fun hmajor => ?_
  rw [hu]
  refine (meets_readArgument _).bind fun v length hv => ?_
  cases length with
  | none => exact Meets.fail _
  | some n =>
    obtain ⟨w, hn, hinfo, rfl⟩ := hv
    refine (meets_appendStringChunk text n output).imp fun content x hx => ?_
    obtain ⟨hlen, hx, hutf8⟩ := hx
    refine ⟨(w, content), ?_, hx, hlen ▸ hn, hutf8⟩
    have hmajor : initial.toNat / 32 = stringMajor text := by
      by_contra hne
      exact hmajor (.inl hne)
    rw [chunkBytes, hlen, head_of_argument hmajor hinfo]
    rfl

/-- The chunks of a string of indefinite length up to its break, put behind what there was. -/
def Chunks (output bs x : Bytes) : Prop :=
  ∃ chunks : List (Width × Bytes), bs = chunks.flatMap (chunkBytes text) ++ [breakOctet] ∧
    x = output ++ chunks.flatMap Prod.snd ∧ (∀ chunk ∈ chunks, chunk.2.length < chunk.1.limit) ∧
    (text = true → ∀ chunk ∈ chunks, Utf8 chunk.2)

theorem meets_scanChunks (output : Bytes) :
    Meets (untilOctet breakOctet (scanChunk (stringMajor text)) output) (Chunks text output) := by
  refine .untilOctet (meets_scanChunk text) ?_ ?_ ?_ output
  · rintro output u x ⟨chunk, rfl, -⟩
    exact List.cons_ne_nil _ _
  · exact fun output => ⟨[], rfl, (List.append_nil _).symm, by simp, by simp⟩
  · rintro output u x v y ⟨chunk, rfl, rfl, hlen, hutf8⟩ ⟨chunks, rfl, rfl, hlens, hutf8s⟩
    refine ⟨chunk :: chunks, ?_, ?_, ?_, ?_⟩
    · rw [List.flatMap_cons, List.append_assoc]
    · rw [List.flatMap_cons, List.append_assoc]
    · exact List.forall_mem_cons.mpr ⟨hlen, hlens⟩
    · exact fun htext => List.forall_mem_cons.mpr ⟨hutf8 htext, hutf8s htext⟩

/-- The octets of a string item behind its initial octet, and its content. -/
def StringTail (initial : UInt8) (bs : Bytes) (content : Bytes) : Prop :=
  ∃ t : Tree, t.bytes = initial :: bs ∧ Good 1 t ∧ (text = true → t.text = some content)

theorem openHead_of_initial (hmajor : b.toNat / 32 = major) (hinfo : b.toNat % 32 = 31) :
    openHead major = b := by
  rw [openHead, ← hmajor, ← hinfo, initial_eq]

/-- With its initial octet, what is read is a string of the grammar. -/
theorem meets_scanString {initial : UInt8} (hmajor : initial.toNat / 32 = stringMajor text) :
    Meets (scanString (stringMajor text) (initial.toNat % 32)) (StringTail text initial) := by
  refine (meets_readArgument _).bind fun u length hu => ?_
  cases length with
  | some n =>
    obtain ⟨w, hn, hinfo, rfl⟩ := hu
    refine (meets_appendStringChunk text n []).imp fun content x hx => ?_
    obtain ⟨hlen, hx, hutf8⟩ := hx
    refine ⟨.string text w content, ?_, ⟨by rwa [Tree.WellFormed, hlen], hutf8, Nat.one_pos⟩, ?_⟩
    · rw [Tree.bytes, hlen, head_of_argument hmajor hinfo]
      rfl
    · rintro rfl
      rw [hx]
      rfl
  | none =>
    obtain ⟨hopen, rfl⟩ := hu
    refine (meets_scanChunks text []).imp fun bs x hx => ?_
    obtain ⟨chunks, rfl, hx, hlens, hutf8s⟩ := hx
    refine ⟨.chunked text chunks, ?_, ⟨hlens, hutf8s, Nat.one_pos⟩, ?_⟩
    · rw [Tree.bytes, openHead_of_initial hmajor hopen]
      rfl
    · rintro rfl
      rw [hx]
      rfl

end

theorem meets_scanTextKey :
    Meets scanTextKey fun bs key => ∃ t : Tree, t.bytes = bs ∧ Good 1 t ∧ t.text = some key := by
  refine (Meets.octet truncatedCbor).bind fun u initial hu =>
    Meets.ite (fun _ => Meets.fail _) fun hmajor => ?_
  rw [hu]
  refine (meets_scanString true (not_not.mp hmajor)).imp fun bs key hkey => ?_
  obtain ⟨t, hbytes, hgood, htext⟩ := hkey
  exact ⟨t, hbytes, hgood, htext rfl⟩

/-! ### Containers -/

/-- What a scan of an item one level down may have read. -/
def ItemRead (levels : Nat) (bs : Bytes) (_ : Unit) : Prop :=
  ∃ t : Tree, t.bytes = bs ∧ Good levels t

/-- Items that may stand in a container with so many levels left below it. -/
structure GoodItems (levels : Nat) (ts : List Tree) : Prop where
  wellFormed : WellFormedItems ts
  strict : StrictItems ts
  height : heightItems ts ≤ levels

theorem GoodItems.nil (levels : Nat) : GoodItems levels [] := ⟨trivial, trivial, Nat.zero_le _⟩

theorem GoodItems.cons {levels : Nat} {ts : List Tree} (h : Good levels t)
    (hs : GoodItems levels ts) : GoodItems levels (t :: ts) :=
  ⟨⟨h.wellFormed, hs.wellFormed⟩, ⟨h.strict, hs.strict⟩, Nat.max_le.mpr ⟨h.height, hs.height⟩⟩

/-- Entries that may stand in a map with so many levels left below it, their keys distinct and none
of them seen before. -/
structure GoodEntries (levels : Nat) (seen : List Bytes) (es : List (Tree × Tree)) : Prop where
  wellFormed : WellFormedEntries es
  strict : StrictEntries es
  height : heightEntries es ≤ levels
  distinct : (es.map fun e => e.1.text).Nodup
  unseen : ∀ e ∈ es, ∀ key ∈ seen, e.1.text ≠ some key

theorem GoodEntries.nil (levels : Nat) (seen : List Bytes) : GoodEntries levels seen [] :=
  ⟨trivial, trivial, Nat.zero_le _, List.nodup_nil, by simp⟩

theorem GoodEntries.cons {levels : Nat} {seen : List Bytes} {k t : Tree} {es : List (Tree × Tree)}
    {key : Bytes} (hk : Good 1 k) (hkey : k.text = some key) (hnew : key ∉ seen)
    (h : Good levels t) (hs : GoodEntries levels (key :: seen) es) :
    GoodEntries levels seen ((k, t) :: es) where
  wellFormed := ⟨hk.wellFormed, h.wellFormed, hs.wellFormed⟩
  strict := ⟨by rw [hkey]; rfl, hk.strict, h.strict, hs.strict⟩
  height := by
    have hheight := hk.height
    have hvalue := h.height
    rw [heightEntries]
    exact Nat.max_le.mpr ⟨by omega, hs.height⟩
  distinct := by
    refine List.nodup_cons.mpr ⟨fun hmem => ?_, hs.distinct⟩
    obtain ⟨e, he, heq⟩ := List.mem_map.mp hmem
    exact hs.unseen e he key List.mem_cons_self (heq.trans hkey)
  unseen := by
    refine List.forall_mem_cons.mpr ⟨fun key' hkey' heq => ?_, fun e he key' hkey' => ?_⟩
    · obtain rfl := Option.some.inj (hkey.symm.trans heq)
      exact hnew hkey'
    · exact hs.unseen e he key' (List.mem_cons_of_mem _ hkey')

/-- An item has octets, so a round of a loop pays for its tick. -/
theorem bytes_ne_nil (t : Tree) : t.bytes ≠ [] := by
  cases t <;> simp [Tree.bytes, Width.head]

section Containers

variable {levels : Nat} {child : Scan Unit}

/-- What the scan of a counted array's items may have read. -/
def ItemsRead (levels n : Nat) (_ : Unit) (bs : Bytes) (_ : Unit) : Prop :=
  ∃ ts : List Tree, ts.length = n ∧ itemsBytes ts = bs ∧ GoodItems levels ts

/-- What the scan of an array's items up to the break may have read. -/
def ItemsToBreak (levels : Nat) (_ : Unit) (bs : Bytes) (_ : Unit) : Prop :=
  ∃ ts : List Tree, itemsBytes ts ++ [breakOctet] = bs ∧ GoodItems levels ts

theorem meets_scanSimple {initial : UInt8} (hmajor : initial.toNat / 32 = 7) :
    Meets (scanSimple (initial.toNat % 32)) fun bs _ =>
      ∃ t : Tree, t.bytes = initial :: bs ∧ Good (levels + 1) t := by
  have hinitial : UInt8.ofNat (7 * 32 + initial.toNat % 32) = initial := by
    rw [← hmajor, initial_eq]
  unfold scanSimple
  split_ifs with h19 h23 h24 h25 h26 h27
  · exact .fail _
  · refine .pure ⟨.simple (initial.toNat % 32), ?_, ?_, ?_, Nat.succ_pos _⟩
    · rw [Tree.bytes, hinitial]
    · show initial.toNat % 32 < 24
      omega
    · show 20 ≤ initial.toNat % 32
      omega
  · rw [h24] at hinitial
    refine (Meets.octet truncatedCbor).bind fun u b hu => Meets.pure ?_
    refine ⟨.simpleByte b, ?_, trivial, trivial, Nat.succ_pos _⟩
    rw [Tree.bytes, hu, ← hinitial]
    rfl
  · rw [h25] at hinitial
    refine (meets_take 2).bind fun u bits hu => .pure ?_
    obtain ⟨rfl, hlen⟩ := hu
    refine ⟨.half ⟨u, hlen⟩, ?_, trivial, trivial, Nat.succ_pos _⟩
    rw [Tree.bytes, ← hinitial, List.append_nil]
    rfl
  · rw [h26] at hinitial
    refine (meets_take 4).bind fun u bits hu => .pure ?_
    obtain ⟨rfl, hlen⟩ := hu
    refine ⟨.single ⟨u, hlen⟩, ?_, trivial, trivial, Nat.succ_pos _⟩
    rw [Tree.bytes, ← hinitial, List.append_nil]
    rfl
  · rw [h27] at hinitial
    refine (meets_take 8).bind fun u bits hu => .pure ?_
    obtain ⟨rfl, hlen⟩ := hu
    refine ⟨.double ⟨u, hlen⟩, ?_, trivial, trivial, Nat.succ_pos _⟩
    rw [Tree.bytes, ← hinitial, List.append_nil]
    rfl
  · exact .fail _

variable (hchild : Meets child (ItemRead levels))

include hchild

theorem meets_items (n : Nat) :
    Meets (repeated (fun _ => child) n ()) (ItemsRead levels n ()) := by
  refine .repeated (fun _ => hchild) ?_ ?_ n ()
  · exact fun _ => ⟨[], rfl, rfl, .nil levels⟩
  · rintro n _ u _ v _ ⟨t, rfl, ht⟩ ⟨ts, rfl, rfl, hts⟩
    exact ⟨t :: ts, rfl, by rw [itemsBytes], .cons ht hts⟩

theorem meets_itemsToBreak :
    Meets (untilOctet breakOctet (fun _ => child) ()) (ItemsToBreak levels ()) := by
  refine .untilOctet (fun _ => hchild) ?_ ?_ ?_ ()
  · rintro _ u _ ⟨t, rfl, -⟩
    exact bytes_ne_nil t
  · exact fun _ => ⟨[], rfl, .nil levels⟩
  · rintro _ u _ v _ ⟨t, rfl, ht⟩ ⟨ts, rfl, hts⟩
    exact ⟨t :: ts, by rw [itemsBytes, List.append_assoc], .cons ht hts⟩

theorem meets_scanArray {initial : UInt8} (hmajor : initial.toNat / 32 = 4) :
    Meets (scanArray child (initial.toNat % 32)) fun bs _ =>
      ∃ t : Tree, t.bytes = initial :: bs ∧ Good (levels + 1) t := by
  refine (meets_readArgument _).bind fun u count hu => ?_
  cases count with
  | some n =>
    obtain ⟨w, hn, hinfo, rfl⟩ := hu
    refine (meets_items hchild n).imp fun bs _ hbs => ?_
    obtain ⟨ts, rfl, rfl, hts⟩ := hbs
    refine ⟨.array w ts, ?_, ⟨hn, hts.wellFormed⟩, hts.strict, Nat.lt_succ_of_le hts.height⟩
    rw [Tree.bytes, head_of_argument hmajor hinfo]
    rfl
  | none =>
    obtain ⟨hopen, rfl⟩ := hu
    refine (meets_itemsToBreak hchild).imp fun bs _ hbs => ?_
    obtain ⟨ts, rfl, hts⟩ := hbs
    refine ⟨.arrayOpen ts, ?_, hts.wellFormed, hts.strict, Nat.lt_succ_of_le hts.height⟩
    rw [Tree.bytes, openHead_of_initial hmajor hopen]
    rfl

/-- A text key that was not seen before, and a value. -/
theorem meets_scanEntry (definite : Bool) (seen : List Bytes) :
    Meets (scanEntry child definite seen) fun bs seen' => ∃ (k t : Tree) (key : Bytes),
      bs = k.bytes ++ t.bytes ∧ seen' = key :: seen ∧ Good 1 k ∧ k.text = some key ∧ key ∉ seen ∧
        Good levels t := by
  have hvalue : Meets (scanValue child definite) (ItemRead levels) := by
    refine Meets.ite (fun _ => hchild) fun _ =>
      (Meets.nextIs breakOctet).bind fun u missing hu => ?_
    rw [hu]
    exact Meets.ite (fun _ => Meets.fail _) fun _ => hchild
  refine meets_scanTextKey.bind fun u key hu => Meets.ite (fun _ => Meets.fail _) fun hnew => ?_
  refine hvalue.bind fun v _ hv => Meets.pure ?_
  obtain ⟨k, rfl, hk, hkey⟩ := hu
  obtain ⟨t, rfl, ht⟩ := hv
  exact ⟨k, t, key, by rw [List.append_nil], rfl, hk, hkey, hnew, ht⟩

/-- What the scan of a counted map's entries may have read. -/
def EntriesRead (levels n : Nat) (seen : List Bytes) (bs : Bytes) (_ : List Bytes) : Prop :=
  ∃ es, es.length = n ∧ entriesBytes es = bs ∧ GoodEntries levels seen es

/-- What the scan of a map's entries up to the break may have read. -/
def EntriesToBreak (levels : Nat) (seen : List Bytes) (bs : Bytes) (_ : List Bytes) : Prop :=
  ∃ es, entriesBytes es ++ [breakOctet] = bs ∧ GoodEntries levels seen es

theorem meets_entries (n : Nat) (seen : List Bytes) :
    Meets (repeated (scanEntry child true) n seen) (EntriesRead levels n seen) := by
  refine .repeated (meets_scanEntry hchild true) ?_ ?_ n seen
  · exact fun seen => ⟨[], rfl, rfl, .nil levels seen⟩
  · rintro n seen u _ v _ ⟨k, t, key, rfl, rfl, hk, hkey, hnew, ht⟩ ⟨es, rfl, rfl, hes⟩
    exact ⟨(k, t) :: es, rfl, by rw [entriesBytes, List.append_assoc], .cons hk hkey hnew ht hes⟩

theorem meets_entriesToBreak (seen : List Bytes) :
    Meets (untilOctet breakOctet (scanEntry child false) seen) (EntriesToBreak levels seen) := by
  refine .untilOctet (meets_scanEntry hchild false) ?_ ?_ ?_ seen
  · rintro seen u _ ⟨k, t, key, rfl, -⟩
    exact List.append_ne_nil_of_left_ne_nil (bytes_ne_nil k) _
  · exact fun seen => ⟨[], rfl, .nil levels seen⟩
  · rintro seen u _ v _ ⟨k, t, key, rfl, rfl, hk, hkey, hnew, ht⟩ ⟨es, rfl, hes⟩
    refine ⟨(k, t) :: es, ?_, .cons hk hkey hnew ht hes⟩
    rw [entriesBytes]
    simp only [List.append_assoc]

theorem meets_scanMap {initial : UInt8} (hmajor : initial.toNat / 32 = 5) :
    Meets (scanMap child (initial.toNat % 32)) fun bs _ =>
      ∃ t : Tree, t.bytes = initial :: bs ∧ Good (levels + 1) t := by
  refine (meets_readArgument _).bind fun u count hu => ?_
  cases count with
  | some n =>
    obtain ⟨w, hn, hinfo, rfl⟩ := hu
    refine (meets_entries hchild n []).bind fun bs _ hbs => .pure ?_
    obtain ⟨es, rfl, rfl, hes⟩ := hbs
    refine ⟨.map w es, ?_, ⟨hn, hes.wellFormed⟩, ⟨hes.strict, hes.distinct⟩,
      Nat.lt_succ_of_le hes.height⟩
    rw [Tree.bytes, head_of_argument hmajor hinfo, List.append_nil]
    rfl
  | none =>
    obtain ⟨hopen, rfl⟩ := hu
    refine (meets_entriesToBreak hchild []).bind fun bs _ hbs => .pure ?_
    obtain ⟨es, rfl, hes⟩ := hbs
    refine ⟨.mapOpen es, ?_, hes.wellFormed, ⟨hes.strict, hes.distinct⟩,
      Nat.lt_succ_of_le hes.height⟩
    rw [Tree.bytes, openHead_of_initial hmajor hopen, List.append_nil]
    rfl

/-- Behind an initial octet the rest of an item is read, its items one level down. -/
theorem meets_scanBody (initial : UInt8) :
    Meets (scanBody child (initial.toNat / 32) (initial.toNat % 32)) fun bs _ =>
      ItemRead (levels + 1) (initial :: bs) () := by
  have hstring : ∀ text, initial.toNat / 32 = stringMajor text →
      Meets (do
        let _ ← scanString (stringMajor text) (initial.toNat % 32)
        pure ()) fun bs _ => ItemRead (levels + 1) (initial :: bs) () := by
    intro text hmajor
    refine (meets_scanString text hmajor).bind fun u content hu => .pure ?_
    obtain ⟨t, ht, hgood, -⟩ := hu
    have hheight := hgood.height
    exact ⟨t, by rw [ht, List.append_nil], hgood.wellFormed, hgood.strict, by omega⟩
  have hinteger : ∀ negative, initial.toNat / 32 = integerMajor negative →
      Meets (do
        let argument ← readArgument (initial.toNat % 32)
        if argument.isNone then fail (.cbor "indefinite integer") else pure ()) fun bs _ =>
          ItemRead (levels + 1) (initial :: bs) () := by
    intro negative hmajor
    refine (meets_readArgument _).bind fun u argument hu => ?_
    cases argument with
    | none => exact .fail _
    | some n =>
      obtain ⟨w, hn, hinfo, rfl⟩ := hu
      refine .pure ⟨.integer negative w n, ?_, hn, trivial, Nat.succ_pos _⟩
      rw [Tree.bytes, head_of_argument hmajor hinfo, List.append_nil]
  have hlt : initial.toNat / 32 < 8 := by
    have := initial.toNat_lt
    omega
  unfold scanBody
  split
  · next h => exact hinteger false h
  · next h => exact hinteger true h
  · next h => rw [h]; exact hstring false h
  · next h => rw [h]; exact hstring true h
  · next h => exact meets_scanArray hchild h
  · next h => exact meets_scanMap hchild h
  · exact .fail _
  · next h => exact meets_scanSimple h
  · next h0 h1 h2 h3 h4 h5 h6 h7 =>
    -- no octet has a ninth major type
    simp only [imp_false] at h0 h1 h2 h3 h4 h5 h6 h7
    omega

end Containers

/-- **Soundness.** What is read is an item of the restricted grammar, within the levels. -/
theorem meets_scanItem (levels : Nat) : Meets (scanItem levels) (ItemRead levels) := by
  induction levels with
  | zero => exact Meets.tick_fail _
  | succ levels ih =>
    refine (Meets.tick_octet truncatedCbor).bind fun u initial hu => ?_
    rw [hu]
    exact meets_scanBody ih initial

/-! ## Whatever is in the grammar is accepted -/

/-- Inputs a slice can hold. -/
abbrev usizeLimit : Nat := 2 ^ 64

theorem accepts_take (bs : Bytes) : Accepts usizeLimit (take bs.length) bs bs := by
  intro input c hlimit hc hpre
  have hend : c.offset + bs.length < 2 ^ 64 :=
    Nat.lt_of_le_of_lt (offset_le_of_prefix_drop hc hpre) hlimit
  obtain ⟨t, ht⟩ := Accepts.octets truncatedCbor bs input c hlimit hc hpre
  refine ⟨t, ?_⟩
  rw [take, bind_ok (show position input c = (.ok c.offset, c) from rfl), if_neg (by omega), ht]

theorem accepts_octets (bits : Octets n) : Accepts usizeLimit (take n) bits.1 bits.1 := by
  obtain ⟨bs, rfl⟩ := bits
  exact accepts_take bs

theorem accepts_taken (hn : n < 256 ^ w.octets) :
    Accepts usizeLimit (do
      let bs ← take w.octets
      pure (some (ofBigEndian bs))) (bigEndian w.octets n) (some n) := by
  have htake := accepts_take (bigEndian w.octets n)
  rw [bigEndian_length] at htake
  refine htake.bind_nil ?_
  rw [ofBigEndian_bigEndian, Nat.mod_eq_of_lt hn]
  exact .pure _

/-- An argument that fits its width is read back. -/
theorem accepts_readArgument (hn : n < w.limit) :
    Accepts usizeLimit (readArgument (w.info n)) (bigEndian w.octets n) (some n) := by
  cases w with
  | immediate =>
    have hle : n ≤ 23 := Nat.le_of_lt_succ hn
    rw [readArgument, Width.info, if_pos hle]
    exact .pure (some n)
  | one =>
    have hn : n < 256 := hn
    have hbytes : bigEndian Width.one.octets n = [UInt8.ofNat n] := by
      show [UInt8.ofNat (n / 256 ^ 0 % 256)] = _
      rw [Nat.pow_zero, Nat.div_one, Nat.mod_eq_of_lt hn]
    rw [hbytes]
    refine (Accepts.octet truncatedCbor (UInt8.ofNat n)).bind_nil ?_
    rw [UInt8.toNat_ofNat', Nat.mod_eq_of_lt hn]
    exact Accepts.pure _
  | two | four | eight => exact accepts_taken hn

theorem accepts_readArgument_open : Accepts usizeLimit (readArgument 31) [] none := .pure none

/-- Neither reserved nor the mark of indefinite length. -/
theorem info_lt (hn : n < w.limit) : w.info n < 28 := by
  cases w with
  | immediate => exact Nat.lt_trans hn (by decide)
  | _ =>
    rw [Width.info]
    decide

/-- An initial octet gives its major type and its additional information back. -/
theorem initial_parts (major info : Nat) (hmajor : major < 8) (hinfo : info < 32) :
    (UInt8.ofNat (major * 32 + info)).toNat / 32 = major ∧
      (UInt8.ofNat (major * 32 + info)).toNat % 32 = info := by
  rw [UInt8.toNat_ofNat']
  omega

theorem head_parts (major : Nat) (hmajor : major < 8) (hn : n < w.limit) :
    (UInt8.ofNat (major * 32 + w.info n)).toNat / 32 = major ∧
      (UInt8.ofNat (major * 32 + w.info n)).toNat % 32 = w.info n :=
  initial_parts major _ hmajor (Nat.lt_trans (info_lt hn) (by decide))

theorem stringMajor_lt (text : Bool) : stringMajor text < 8 := by cases text <;> decide

theorem accepts_appendStringChunk (hutf8 : text = true → Utf8 content) (output : Bytes) :
    Accepts usizeLimit (appendStringChunk (stringMajor text) content.length output) content
      (output ++ content) := by
  have hvalid : ¬ (stringMajor text = 3 ∧
      (ByteArray.mk content.toArray).validateUTF8 = false) := by
    rintro ⟨hmajor, hfalse⟩
    have htext : text = true := by
      cases text with
      | true => rfl
      | false => cases hmajor
    rw [ByteArray.validateUTF8_eq_true_iff.mpr (hutf8 htext)] at hfalse
    cases hfalse
  refine (accepts_take content).bind_nil ?_
  rw [if_neg hvalid]
  exact .pure _

theorem accepts_scanChunk {chunk : Width × Bytes} (hlen : chunk.2.length < chunk.1.limit)
    (hutf8 : text = true → Utf8 chunk.2) (output : Bytes) :
    Accepts usizeLimit (scanChunk (stringMajor text) output) (chunkBytes text chunk)
      (output ++ chunk.2) := by
  obtain ⟨hmajor, hinfo⟩ := head_parts _ (stringMajor_lt text) hlen
  have hclosed := info_lt hlen
  refine .bind (u := [_]) (.octet truncatedCbor _) ?_
  rw [hmajor, hinfo, if_neg (by omega)]
  exact (accepts_readArgument hlen).bind (accepts_appendStringChunk hutf8 output)

/-- A first octet below the break. -/
theorem startsWithout_of_lt {bs : Bytes} (h : b.toNat < 255) :
    StartsWithout breakOctet (b :: bs) := by
  refine ⟨b, bs, rfl, ?_⟩
  rintro rfl
  exact absurd h (by decide)

/-- No head is mistaken for the break. -/
theorem startsWithout_head (hn : n < w.limit) : StartsWithout breakOctet (w.head major n) := by
  have hinfo := info_lt hn
  refine startsWithout_of_lt ?_
  rw [UInt8.toNat_ofNat']
  omega

/-- Chunk by chunk up to the break. -/
theorem accepts_chunks (hlens : ∀ chunk ∈ chunks, chunk.2.length < chunk.1.limit)
    (hutf8 : text = true → ∀ chunk ∈ chunks, Utf8 chunk.2) (output : Bytes) :
    Rounds usizeLimit breakOctet (scanChunk (stringMajor text)) output
      (chunks.flatMap (chunkBytes text) ++ [breakOctet]) (output ++ chunks.flatMap Prod.snd) := by
  induction chunks generalizing output with
  | nil =>
    rw [List.flatMap_nil, List.flatMap_nil, List.append_nil]
    exact .stop output
  | cons chunk chunks ih =>
    obtain ⟨hlen, hlens⟩ := List.forall_mem_cons.mp hlens
    have hhead : StartsWithout breakOctet (chunkBytes text chunk) :=
      (startsWithout_head hlen).append
    have hrest := ih hlens (fun htext => (List.forall_mem_cons.mp (hutf8 htext)).2)
      (output ++ chunk.2)
    rw [List.append_assoc] at hrest
    rw [List.flatMap_cons, List.flatMap_cons, List.append_assoc]
    exact .round (accepts_scanChunk hlen
      (fun htext => (List.forall_mem_cons.mp (hutf8 htext)).1) output) hhead hrest

theorem accepts_scanString_closed (hlen : content.length < w.limit)
    (hutf8 : text = true → Utf8 content) :
    Accepts usizeLimit (scanString (stringMajor text) (w.info content.length))
      (bigEndian w.octets content.length ++ content) content :=
  (accepts_readArgument hlen).bind (accepts_appendStringChunk hutf8 [])

theorem accepts_scanString_open (hlens : ∀ chunk ∈ chunks, chunk.2.length < chunk.1.limit)
    (hutf8 : text = true → ∀ chunk ∈ chunks, Utf8 chunk.2) :
    Accepts usizeLimit (scanString (stringMajor text) 31)
      (chunks.flatMap (chunkBytes text) ++ [breakOctet]) (chunks.flatMap Prod.snd) :=
  .bind (u := []) accepts_readArgument_open (accepts_chunks hlens hutf8 []).accepts

theorem accepts_scanTextKey {key : Bytes} (hwf : t.WellFormed) (hstrict : t.Strict)
    (hkey : t.text = some key) : Accepts usizeLimit scanTextKey t.bytes key := by
  cases t with
  | string text w content =>
    cases text with
    | false => cases hkey
    | true =>
      obtain rfl := Option.some.inj hkey
      obtain ⟨hmajor, hinfo⟩ := head_parts 3 (by decide) hwf
      rw [Tree.bytes, Width.head, List.cons_append]
      refine .bind (.octet truncatedCbor _) ?_
      rw [show stringMajor true = 3 from rfl, hmajor, hinfo, if_neg (by decide)]
      exact accepts_scanString_closed hwf hstrict
  | chunked text chunks =>
    cases text with
    | false => cases hkey
    | true =>
      obtain rfl := Option.some.inj hkey
      obtain ⟨hmajor, hinfo⟩ := initial_parts 3 31 (by decide) (by decide)
      rw [Tree.bytes]
      refine .bind (.octet truncatedCbor _) ?_
      rw [openHead, show stringMajor true = 3 from rfl, hmajor, hinfo, if_neg (by decide)]
      exact accepts_scanString_open hwf hstrict
  | _ => cases hkey

theorem startsWithout_bytes (hwf : t.WellFormed) : StartsWithout breakOctet t.bytes := by
  cases t with
  | integer negative w n => exact startsWithout_head hwf
  | string text w content => exact (startsWithout_head hwf).append
  | chunked text chunks => exact startsWithout_of_lt (by cases text <;> decide)
  | array | map | tag => exact (startsWithout_head hwf.1).append
  | arrayOpen | mapOpen => exact startsWithout_of_lt (by decide)
  | simple n =>
    have hn : n < 24 := hwf
    refine startsWithout_of_lt ?_
    rw [UInt8.toNat_ofNat']
    omega
  | simpleByte | half | single | double => exact startsWithout_of_lt (by decide)

section Containers

variable {levels : Nat} {child : Scan Unit}
  (hchild : ∀ t : Tree, Good levels t → Accepts usizeLimit child t.bytes ())

/-- An item is scanned by the two parts of its initial octet. -/
theorem accepts_of_initial {bs : Bytes} (major info : Nat) (hmajor : major < 8) (hinfo : info < 32)
    (h : Accepts usizeLimit (scanBody child major info) bs ()) : ∃ initial rest,
    UInt8.ofNat (major * 32 + info) :: bs = initial :: rest ∧
      Accepts usizeLimit (scanBody child (initial.toNat / 32) (initial.toNat % 32)) rest () := by
  obtain ⟨hmajor', hinfo'⟩ := initial_parts major info hmajor hinfo
  exact ⟨_, _, rfl, by rwa [hmajor', hinfo']⟩

include hchild

/-- The items of an array, counted or up to the break. -/
theorem accepts_items {ts : List Tree} (h : GoodItems levels ts) :
    Accepts usizeLimit (repeated (fun _ => child) ts.length ()) (itemsBytes ts) () ∧
      Rounds usizeLimit breakOctet (fun _ => child) () (itemsBytes ts ++ [breakOctet]) () := by
  induction ts with
  | nil => exact ⟨.pure (), .stop ()⟩
  | cons t ts ih =>
    obtain ⟨hwf, hstrict, hheight⟩ := h
    obtain ⟨hle, hles⟩ := Nat.max_le.mp hheight
    have ht := hchild t ⟨hwf.1, hstrict.1, hle⟩
    obtain ⟨hclosed, hopen⟩ := ih ⟨hwf.2, hstrict.2, hles⟩
    rw [itemsBytes, List.append_assoc]
    exact ⟨.repeated_succ ht hclosed, .round ht (startsWithout_bytes hwf.1) hopen⟩

theorem accepts_scanEntry {k t : Tree} {key : Bytes} (definite : Bool) {seen : List Bytes}
    (hwf : k.WellFormed) (hstrict : k.Strict) (hkey : k.text = some key) (hnew : key ∉ seen)
    (h : Good levels t) :
    Accepts usizeLimit (scanEntry child definite seen) (k.bytes ++ t.bytes) (key :: seen) := by
  have hvalue : Accepts usizeLimit (scanValue child definite) t.bytes () := by
    cases definite with
    | true => exact hchild t h
    | false => exact .unless_next (hchild t h) (startsWithout_bytes h.wellFormed)
  refine (accepts_scanTextKey hwf hstrict hkey).bind ?_
  rw [if_neg hnew]
  exact hvalue.bind_nil (.pure _)

/-- The entries of a map, counted or up to the break, whatever keys were seen before. -/
theorem accepts_entries {es : List (Tree × Tree)} {seen : List Bytes}
    (h : GoodEntries levels seen es) :
    (∃ seen', Accepts usizeLimit (repeated (scanEntry child true) es.length seen)
      (entriesBytes es) seen') ∧
    ∃ seen', Rounds usizeLimit breakOctet (scanEntry child false) seen
      (entriesBytes es ++ [breakOctet]) seen' := by
  induction es generalizing seen with
  | nil => exact ⟨⟨seen, .pure seen⟩, seen, .stop seen⟩
  | cons e es ih =>
    obtain ⟨k, t⟩ := e
    obtain ⟨hwf, hstrict, hheight, hdistinct, hunseen⟩ := h
    obtain ⟨key, hkey⟩ := Option.isSome_iff_exists.mp hstrict.1
    obtain ⟨hle, hles⟩ := Nat.max_le.mp hheight
    obtain ⟨hunseen, hunseens⟩ := List.forall_mem_cons.mp hunseen
    obtain ⟨hother, hdistinct⟩ := List.nodup_cons.mp hdistinct
    have hnew : key ∉ seen := fun hmem => hunseen key hmem hkey
    have hrest : GoodEntries levels (key :: seen) es := by
      refine ⟨hwf.2.2, hstrict.2.2.2, hles, hdistinct, fun e he => ?_⟩
      refine List.forall_mem_cons.mpr ⟨fun heq => hother ?_, hunseens e he⟩
      exact List.mem_map.mpr ⟨e, he, heq.trans hkey.symm⟩
    have ht : Good levels t := ⟨hwf.2.1, hstrict.2.2.1, (Nat.max_le.mp hle).2⟩
    have hentry := fun definite => accepts_scanEntry hchild definite hwf.1 hstrict.2.1 hkey hnew ht
    obtain ⟨⟨seen', hclosed⟩, seen'', hopen⟩ := ih hrest
    rw [entriesBytes, ← List.append_assoc, List.append_assoc (k.bytes ++ t.bytes)]
    exact ⟨⟨seen', .repeated_succ (hentry true) hclosed⟩, seen'',
      .round (hentry false) (startsWithout_bytes hwf.1).append hopen⟩

/-- Every kind of item but tags. -/
theorem accepts_scanBody (h : Good (levels + 1) t) : ∃ initial bs,
    t.bytes = initial :: bs ∧
      Accepts usizeLimit (scanBody child (initial.toNat / 32) (initial.toNat % 32)) bs () := by
  obtain ⟨hwf, hstrict, hheight⟩ := h
  cases t with
  | integer negative w n =>
    refine accepts_of_initial (integerMajor negative) (w.info n) (by cases negative <;> decide)
      ((info_lt hwf).trans (by decide)) ?_
    have hargument : Accepts usizeLimit (do
        let argument ← readArgument (w.info n)
        if argument.isNone then fail (.cbor "indefinite integer") else pure ())
        (bigEndian w.octets n) () :=
      (accepts_readArgument hwf).bind_nil (.pure ())
    cases negative with
    | false | true => exact hargument
  | string text w content =>
    refine accepts_of_initial (stringMajor text) (w.info content.length) (stringMajor_lt text)
      ((info_lt hwf).trans (by decide)) ?_
    have hstring := (accepts_scanString_closed hwf hstrict).bind_nil
      (f := fun _ => pure ()) (.pure ())
    cases text with
    | false | true => exact hstring
  | chunked text chunks =>
    refine accepts_of_initial (stringMajor text) 31 (stringMajor_lt text) (by decide) ?_
    have hstring := (accepts_scanString_open hwf hstrict).bind_nil
      (f := fun _ => pure ()) (.pure ())
    cases text with
    | false | true => exact hstring
  | array w items =>
    exact accepts_of_initial 4 (w.info items.length) (by decide) ((info_lt hwf.1).trans (by decide))
      ((accepts_readArgument hwf.1).bind
        (accepts_items hchild ⟨hwf.2, hstrict, Nat.le_of_lt_succ hheight⟩).1)
  | arrayOpen items =>
    exact accepts_of_initial 4 31 (by decide) (by decide)
      (.bind (u := []) accepts_readArgument_open
        (accepts_items hchild ⟨hwf, hstrict, Nat.le_of_lt_succ hheight⟩).2.accepts)
  | map w entries =>
    obtain ⟨⟨seen, hentries⟩, -⟩ := accepts_entries hchild
      ⟨hwf.2, hstrict.1, Nat.le_of_lt_succ hheight, hstrict.2, fun _ _ => List.forall_mem_nil _⟩
    exact accepts_of_initial 5 (w.info entries.length) (by decide) ((info_lt hwf.1).trans (by decide))
      ((accepts_readArgument hwf.1).bind (hentries.bind_nil (.pure ())))
  | mapOpen entries =>
    obtain ⟨-, seen, hentries⟩ := accepts_entries hchild
      ⟨hwf, hstrict.1, Nat.le_of_lt_succ hheight, hstrict.2, fun _ _ => List.forall_mem_nil _⟩
    exact accepts_of_initial 5 31 (by decide) (by decide)
      (.bind (u := []) accepts_readArgument_open (hentries.accepts.bind_nil (.pure ())))
  | tag w n item => cases hstrict
  | simple n =>
    have hlow : 20 ≤ n := hstrict
    have hhigh : n < 24 := hwf
    refine accepts_of_initial 7 n (by decide) (by omega) ?_
    rw [scanBody, scanSimple, if_neg (by omega), if_pos (by omega)]
    exact .pure ()
  | simpleByte b =>
    exact ⟨0xf8, [b], rfl, (Accepts.octet truncatedCbor b).bind_nil (Accepts.pure ())⟩
  | half bits => exact ⟨0xf9, bits.1, rfl, (accepts_octets bits).bind_nil (.pure ())⟩
  | single bits => exact ⟨0xfa, bits.1, rfl, (accepts_octets bits).bind_nil (.pure ())⟩
  | double bits => exact ⟨0xfb, bits.1, rfl, (accepts_octets bits).bind_nil (.pure ())⟩

end Containers

/-- **Completeness.** An item of the restricted grammar is read to its end. -/
theorem accepts_scanItem (levels : Nat) (t : Tree) (h : Good levels t) :
    Accepts usizeLimit (scanItem levels) t.bytes () := by
  induction levels generalizing t with
  | zero => exact absurd h.height (Nat.not_lt_zero _)
  | succ levels ih =>
    obtain ⟨initial, bs, hbytes, hbody⟩ := accepts_scanBody ih h
    rw [hbytes]
    refine .bind .tick ?_
    exact .bind (.octet truncatedCbor initial) hbody

/-! ## The whole scan -/

theorem good_iff :
    Good (maxCborNestingDepth + 1) t ↔ t.WellFormed ∧ t.Strict ∧ t.height ≤ maxCborNestingDepth :=
  ⟨fun h => ⟨h.wellFormed, h.strict, Nat.le_of_lt_succ h.height⟩,
    fun h => ⟨h.1, h.2.1, Nat.lt_succ_of_le h.2.2⟩⟩

theorem scanFrom_outcome (input : Bytes) :
    Scanner.Outcome (ItemRead (maxCborNestingDepth + 1)) input ⟨0, 0⟩ (scanFrom input) :=
  meets_scanItem _ input ⟨0, 0⟩ (Nat.zero_le _)

theorem scanFrom_accepts (h : Good (maxCborNestingDepth + 1) t) (hlen : t.bytes.length < 2 ^ 64) :
    ∃ ticks, scanFrom t.bytes = (.ok (), ⟨t.bytes.length, ticks⟩) := by
  obtain ⟨ticks, hticks⟩ := accepts_scanItem _ t h t.bytes ⟨0, 0⟩ hlen (Nat.zero_le _)
    (List.prefix_rfl)
  exact ⟨ticks, by rw [scanFrom, hticks, Nat.zero_add]⟩

theorem scanCbor_error {e : Fault ProtocolError} (h : scanFrom input = (.error e, c)) :
    scanCbor input = .error e := by
  rw [scanCbor, h]

theorem scanCbor_ok (h : scanFrom input = (.ok (), c)) :
    scanCbor input =
      if c.offset ≠ input.length then .error (.err .trailingData) else .ok () := by
  rw [scanCbor, h]

theorem scanCbor_ok_iff (hinput : input.length < 2 ^ 64) :
    scanCbor input = .ok () ↔ ∃ t : Tree, t.bytes = input ∧ Good (maxCborNestingDepth + 1) t := by
  constructor
  · intro hok
    have hout := scanFrom_outcome input
    rcases hscan : scanFrom input with ⟨e | _, c⟩
    · rw [scanCbor_error hscan] at hok
      cases hok
    · rw [scanCbor_ok hscan] at hok
      rw [hscan] at hout
      obtain ⟨bs, hreads, -, t, rfl, hgood⟩ := hout
      have hend : c.offset = input.length := by
        by_contra hne
        rw [if_pos hne] at hok
        cases hok
      -- what was read ends where the input does
      obtain ⟨hoffset, rest, hrest⟩ := hreads
      have hlen := congrArg List.length hrest
      simp only [List.length_append, List.drop_zero, Nat.zero_add] at hlen hoffset
      have hnil : rest = [] := List.eq_nil_of_length_eq_zero (by omega)
      rw [hnil, List.append_nil, List.drop_zero] at hrest
      exact ⟨t, hrest, hgood⟩
  · rintro ⟨t, rfl, hgood⟩
    obtain ⟨ticks, hticks⟩ := scanFrom_accepts hgood hinput
    rw [scanCbor, hticks]
    exact if_neg (fun hne => hne rfl)

/-- No panic, nothing behind the input, and ticks in proportion to what was read. -/
theorem scanFrom_bounds (input : Bytes) :
    (scanFrom input).1 ≠ .error .panic ∧ (scanFrom input).2.offset ≤ input.length ∧
      (scanFrom input).2.ticks ≤ input.length + 1 := by
  have hout := scanFrom_outcome input
  rcases hscan : scanFrom input with ⟨e | _, c⟩
  · rw [hscan] at hout
    cases e with
    | panic => exact hout.elim
    | err e =>
      obtain ⟨-, hle, hticks⟩ := hout
      simp only [Nat.add_zero, Nat.zero_add] at hticks
      exact ⟨by simp, hle, by show c.ticks ≤ _; omega⟩
  · rw [hscan] at hout
    obtain ⟨bs, hreads, hticks, -⟩ := hout
    have hle := hreads.le_length (Nat.zero_le _)
    have hoffset := hreads.1
    simp only [Nat.zero_add] at hticks hoffset
    exact ⟨by simp, hle, by show c.ticks ≤ _; omega⟩

theorem scanCbor_ne_panic (input : Bytes) : scanCbor input ≠ .error .panic := by
  have hpanic := (scanFrom_bounds input).1
  intro hscan
  rcases h : scanFrom input with ⟨e | _, c⟩
  · rw [scanCbor_error h] at hscan
    rw [h] at hpanic
    exact hpanic (congrArg Except.error (Except.error.inj hscan))
  · rw [scanCbor_ok h] at hscan
    split_ifs at hscan
    cases hscan

/-- **The scanner accepts the restricted grammar, and its work is linear.** It succeeds exactly on
the octets of one item that is well formed and strict and no deeper than the bound. On every input
it ends without a panic and inside the input, with at most one item scan for each octet and one
more. -/
theorem scan_exact_and_linear (input : Bytes) (hinput : input.length < 2 ^ 64) :
    (scanCbor input = .ok () ↔ ∃ t : Tree, t.bytes = input ∧ t.WellFormed ∧ t.Strict ∧
      t.height ≤ maxCborNestingDepth) ∧ scanCbor input ≠ .error .panic ∧
    (scanFrom input).2.offset ≤ input.length ∧ itemScans input ≤ input.length + 1 := by
  obtain ⟨-, hoffset, hticks⟩ := scanFrom_bounds input
  refine ⟨?_, scanCbor_ne_panic input, hoffset, hticks⟩
  rw [scanCbor_ok_iff hinput]
  exact exists_congr fun t => and_congr_right fun _ => good_iff

/-- A map and an array of indefinite length, one in the other: accepted after three item scans. -/
theorem scan_of_nested_open_items :
    let input : Bytes := [0xbf, 0x61, 0x61, 0x9f, 0x01, 0xff, 0xff]
    (∃ t : Tree, t.bytes = input ∧ t.WellFormed ∧ t.Strict ∧ t.height ≤ maxCborNestingDepth) ∧
      itemScans input = 3 ∧ itemScans input ≤ input.length + 1 := by
  intro input
  obtain ⟨haccepts, -, -, hlinear⟩ := scan_exact_and_linear input (by decide)
  exact ⟨haccepts.mp (by decide), by decide, hlinear⟩

/-- A declared length of 2^64 - 1 costs the scan of the array and of its first missing item. -/
example : scanCbor [0x9b, 0xff, 0xff, 0xff, 0xff, 0xff, 0xff, 0xff, 0xff] =
      .error (.err truncatedCbor) ∧
    itemScans [0x9b, 0xff, 0xff, 0xff, 0xff, 0xff, 0xff, 0xff, 0xff] = 2 := by decide

end Conveyance.Protocol
