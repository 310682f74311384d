import Conveyance.Protocol.Cbor
import Conveyance.Protocol.Scan

/-!
# Encoding and decoding (conveyance-protocol, message.rs)

What the encoder writes passes all checks of the strict decoder but one: `encode` puts no
bound on the nesting of the request parameters or the response body, and the preflight does.
-/

namespace Conveyance.Protocol

open Lib Lib.Cbor Scanner WireMessage

section Decoder

-- `ciborium::de::from_reader`; an error is its text
variable (fromReader : Bytes → Except String WireMessage)

def mapDecodeError (text : String) : ProtocolError :=
  if text.toList.tails.any ("unknown variant".toList.isPrefixOf ·) then .unknownEnumValue
  else .cbor text

/-- From the reader on, after the preflight. -/
def decodeScanned (bytes : Bytes) : Except ProtocolError WireMessage := do
  let message ← (fromReader bytes).mapError mapDecodeError
  validateSemantics message
  .ok message

/-- The size limit, the structural preflight, ciborium's reader and the semantic checks. -/
def decode (bytes : Bytes) : Except (Fault ProtocolError) WireMessage :=
  if maxWireMessageBytes < bytes.length then .error (.err .messageTooLarge)
  else do
    scanCbor bytes
    (decodeScanned fromReader bytes).mapError .err

/-- The request type the approval path of the phone accepts. -/
def decodeApprovalRequest (bytes : Bytes) : Except (Fault ProtocolError) ApprovalRequest := do
  let message ← decode fromReader bytes
  match message with
  | .approvalRequest request =>
    if request.opType ≠ .authenticatedRequest then .error (.err .unsupportedApprovalOperation)
    else .ok request
  | _ => .error (.err .unexpectedMessageType)

/-- An execution, to be compared with what was approved. -/
def decodeExecuteRequest (bytes : Bytes) : Except (Fault ProtocolError) ExecuteRequest := do
  let message ← decode fromReader bytes
  match message with
  | .executeRequest request =>
    if request.opType ≠ .authenticatedRequest then .error (.err .unsupportedApprovalOperation)
    else .ok request
  | _ => .error (.err .unexpectedMessageType)

/-- A message is decoded when every stage lets it through. -/
theorem decode_eq_ok {bytes : Bytes} {m : WireMessage} :
    decode fromReader bytes = .ok m ↔
      bytes.length ≤ maxWireMessageBytes ∧ scanCbor bytes = .ok () ∧ fromReader bytes = .ok m ∧
        validateSemantics m = .ok () := by
  unfold decode
  split_ifs with hlen
  · exact ⟨fun h => absurd h (by simp), fun h => absurd h.1 (Nat.not_le_of_lt hlen)⟩
  · rw [bind_eq_ok]
    simp only [mapError_eq_ok, decodeScanned, bind_eq_ok, Except.ok.injEq]
    constructor
    · rintro ⟨_, hscan, x, hread, _, hvalid, rfl⟩
      exact ⟨Nat.le_of_not_lt hlen, hscan, hread, hvalid⟩
    · rintro ⟨-, hscan, hread, hvalid⟩
      exact ⟨(), hscan, m, hread, (), hvalid, rfl⟩

/-- The preflight has the last word on what it refuses. -/
theorem decode_of_scan_error {bytes : Bytes} {e : Fault ProtocolError}
    (hlen : bytes.length ≤ maxWireMessageBytes) (hscan : scanCbor bytes = .error e) :
    decode fromReader bytes = .error e := by
  rw [decode, if_neg (Nat.not_lt_of_le hlen), hscan]
  rfl

end Decoder

/-! ## Items that lie too deep -/

section Containers

variable {levels : Nat} {child : Scan Unit}
  (haccepts : ∀ t : Tree, Good levels t → Accepts usizeLimit child t.bytes ())
  (hrefuses : ∀ item : Item, item.tree.WellFormed → item.tree.Strict → levels ≤ item.tree.height →
    Refuses usizeLimit child item.tree.bytes .nestingTooDeep)

include haccepts hrefuses

/-- The items before the first one that lies too deep are accepted. -/
theorem refuses_items {items : List Item} (hwf : WellFormedItems (itemTrees items))
    (hstrict : StrictItems (itemTrees items)) (hdeep : levels < heightItems (itemTrees items)) :
    Refuses usizeLimit (repeated (fun _ => child) items.length ()) (itemsBytes (itemTrees items))
      .nestingTooDeep := by
  induction items with
  | nil => exact absurd hdeep (Nat.not_lt_zero _)
  | cons x xs ih =>
    by_cases hx : levels ≤ x.tree.height
    · exact (hrefuses x hwf.1 hstrict.1 hx).bind_left.append
    · have hxs : levels < heightItems (itemTrees xs) := by
        rw [itemTrees, heightItems] at hdeep
        omega
      exact .repeated_succ (haccepts x.tree ⟨hwf.1, hstrict.1, Nat.lt_of_not_le hx⟩)
        (ih hwf.2 hstrict.2 hxs)

theorem refuses_entries {entries : List (String × Item)} {seen : List Bytes}
    (hwf : WellFormedEntries (entryTrees entries)) (hstrict : StrictEntries (entryTrees entries))
    (hkeys : (entries.map Prod.fst).Nodup) (hunseen : ∀ e ∈ entries, utf8 e.1 ∉ seen)
    (hdeep : levels < heightEntries (entryTrees entries)) :
    Refuses usizeLimit (repeated (scanEntry child true) entries.length seen)
      (entriesBytes (entryTrees entries)) .nestingTooDeep := by
  induction entries generalizing seen with
  | nil => exact absurd hdeep (Nat.not_lt_zero _)
  | cons e es ih =>
    obtain ⟨key, x⟩ := e
    obtain ⟨hnew, hunseen⟩ := List.forall_mem_cons.mp hunseen
    obtain ⟨hother, hkeys⟩ := List.nodup_cons.mp hkeys
    obtain ⟨hwfKey, hwfx, hwf⟩ := hwf
    obtain ⟨-, hstrictKey, hstrictx, hstrict⟩ := hstrict
    rw [heightEntries_cons] at hdeep
    rw [entryTrees, entriesBytes]
    by_cases hx : levels ≤ x.tree.height
    · refine .bind_left (.bind_right (accepts_scanTextKey hwfKey hstrictKey rfl) ?_)
      rw [if_neg hnew]
      exact (hrefuses x hwfx hstrictx hx).bind_left.append
    · have hes : levels < heightEntries (entryTrees es) := by omega
      have hentry := accepts_scanEntry haccepts true hwfKey hstrictKey rfl hnew
        ⟨hwfx, hstrictx, Nat.lt_of_not_le hx⟩
      have hrest : ∀ e ∈ es, utf8 e.1 ∉ utf8 key :: seen := by
        intro e he hmem
        rcases List.mem_cons.mp hmem with heq | hmem
        · exact hother (List.mem_map.mpr ⟨e, he, toUTF8_inj heq⟩)
        · exact hunseen e he hmem
      rw [← List.append_assoc]
      exact .repeated_succ hentry (ih hwf hstrict hkeys hrest hes)

end Containers

/-- **An item that lies too deep is refused for its nesting**, whatever stands behind it. -/
theorem refuses_scanItem (levels : Nat) (item : Item) (hwf : item.tree.WellFormed)
    (hstrict : item.tree.Strict) (hdeep : levels ≤ item.tree.height) :
    Refuses usizeLimit (scanItem levels) item.tree.bytes .nestingTooDeep := by
  induction levels generalizing item with
  | zero => exact fun input c _ _ _ => ⟨_, rfl⟩
  | succ levels ih =>
    have haccepts := accepts_scanItem levels
    -- only a container has anything below it
    cases item with
    | array items =>
      obtain ⟨hmajor, hinfo⟩ := head_parts 4 (by decide) hwf.1
      have hitems := refuses_items haccepts ih hwf.2 hstrict hdeep
      refine .bind_right (u := []) .tick ?_
      refine .bind_right (.octet truncatedCbor _) ?_
      rw [hmajor, hinfo]
      refine .bind_right (accepts_readArgument hwf.1) ?_
      rwa [itemTrees_eq_map, List.length_map, ← itemTrees_eq_map]
    | map entries =>
      obtain ⟨hmajor, hinfo⟩ := head_parts 5 (by decide) hwf.1
      have hentries := refuses_entries haccepts ih hwf.2 hstrict.1 (strict_map.mp hstrict).1
        (fun _ _ => List.not_mem_nil) hdeep
      refine .bind_right (u := []) .tick ?_
      refine .bind_right (.octet truncatedCbor _) ?_
      rw [hmajor, hinfo]
      refine .bind_right (accepts_readArgument hwf.1) ?_
      rw [entryTrees_eq_map, List.length_map, ← entryTrees_eq_map]
      exact hentries.bind_left
    | bool b => cases b <;> exact absurd hdeep (Nat.not_succ_le_zero _)
    | _ => exact absurd hdeep (Nat.not_succ_le_zero _)

/-! ## The item of a message -/

theorem jsonItems_eq_map (items : List Json) : jsonItems items = items.map jsonItem := by
  induction items with
  | nil => rfl
  | cons x xs ih => rw [jsonItems, ih, List.map_cons]

theorem jsonEntries_eq_map (members : List (String × Json)) :
    jsonEntries members = members.map fun m => (m.1, jsonItem m.2) := by
  induction members with
  | nil => rfl
  | cons m ms ih => rw [jsonEntries, ih, List.map_cons]

/-- JSON is written without tags, and with distinct keys. -/
theorem strict_jsonItem {j : Json} (h : j.Ordered) : (jsonItem j).tree.Strict := by
  induction j using Json.induct with
  | null => exact (by decide : 20 ≤ 22)
  | bool b =>
    cases b with
    | false => exact (by decide : 20 ≤ 20)
    | true => exact (by decide : 20 ≤ 21)
  | number n => cases n <;> trivial
  | string s => exact strict_textTree s
  | array items ih =>
    rw [jsonItem, jsonItems_eq_map, strict_array, List.forall_mem_map]
    exact fun x hx => ih x hx (Json.orderedItems_iff.mp h x hx)
  | object members ih =>
    rw [jsonItem, jsonEntries_eq_map, strict_map, List.map_map, List.forall_mem_map]
    exact ⟨h.1.nodup_keys, fun m hm => ih m hm (Json.orderedMembers_iff.mp h.2 m hm)⟩

theorem heightItems_jsonItems {items : List Json}
    (h : ∀ x ∈ items, (jsonItem x).tree.height = x.nesting) :
    heightItems (itemTrees (jsonItems items)) = Json.nestingItems items := by
  induction items with
  | nil => rfl
  | cons x xs ih =>
    obtain ⟨hx, hxs⟩ := List.forall_mem_cons.mp h
    rw [jsonItems, itemTrees, heightItems, hx, ih hxs, Json.nestingItems]

theorem heightEntries_jsonEntries {members : List (String × Json)}
    (h : ∀ m ∈ members, (jsonItem m.2).tree.height = m.2.nesting) :
    heightEntries (entryTrees (jsonEntries members)) = Json.nestingMembers members := by
  induction members with
  | nil => rfl
  | cons m ms ih =>
    obtain ⟨hm, hms⟩ := List.forall_mem_cons.mp h
    rw [jsonEntries, heightEntries_cons, hm, ih hms, Json.nestingMembers]

/-- The depth of the item is the nesting of the value. -/
theorem height_jsonItem (j : Json) : (jsonItem j).tree.height = j.nesting := by
  induction j using Json.induct with
  | null => rfl
  | bool b | number b => cases b <;> rfl
  | string s => rfl
  | array items ih => exact heightItems_jsonItems ih
  | object members ih => exact heightEntries_jsonEntries ih

/-- The one value of a message whose shape its sender is free to choose. -/
def WireMessage.payload : WireMessage → Option Json.Value
  | .approvalRequest m => some m.params
  | .executeRequest m => some m.params
  | .executeResponse m => some m.body
  | _ => none

/-- No payload reaches below the level the preflight scans. -/
def WireMessage.Shallow (m : WireMessage) : Prop :=
  ∀ v ∈ m.payload, v.1.nesting < maxCborNestingDepth

/-- What every other field is: strict, and at most a list of scalars. -/
structure Plain (x : Item) : Prop where
  strict : x.tree.Strict
  height : x.tree.height ≤ 1

theorem Plain.text (s : String) : Plain (.text s) := ⟨strict_textTree s, Nat.zero_le _⟩

theorem Plain.bytes (b : Bytes) : Plain (.bytes b) := ⟨fun h => (by cases h), Nat.zero_le _⟩

theorem Plain.unsigned (n : UInt64) : Plain (.unsigned n) := ⟨trivial, Nat.zero_le _⟩

theorem Plain.ofInt64 (n : Int64) : Plain (Cbor.ofInt64 n) := by
  unfold Cbor.ofInt64
  split_ifs
  · exact ⟨trivial, Nat.zero_le _⟩
  · exact .unsigned _

theorem Plain.array {items : List Item} (h : ∀ x ∈ items, x.tree.Strict ∧ x.tree.height = 0) :
    Plain (.array items) := by
  refine ⟨strict_array.mpr fun x hx => (h x hx).1, ?_⟩
  show heightItems (itemTrees items) ≤ 1
  rw [heightItems_le_iff, itemTrees_eq_map, List.forall_mem_map]
  exact fun x hx => by rw [(h x hx).2]

variable {n : Nat} {m : WireMessage}

theorem Plain.octetsItem (b : Octets n) : Plain (octetsItem b) :=
  .array (List.forall_mem_map.mpr fun _ _ => ⟨trivial, rfl⟩)

/-- A field is plain, or it is the payload. -/
def WireMessage.Field (m : WireMessage) (x : Item) : Prop :=
  Plain x ∨ ∃ v ∈ m.payload, x = jsonItem v.1

theorem WireMessage.fields_optionalEntry (name : String) (o : Option String) :
    ∀ e ∈ optionalEntry name o, m.Field e.2 := by
  cases o with
  | none => exact List.forall_mem_nil _
  | some s => exact List.forall_mem_singleton.mpr (.inl (.text s))

theorem WireMessage.fields_requestEntries (reqId : ReqId) (opType : OpType)
    (service method endpoint : String) {params : Json.Value} (requestedBy : Option String)
    (timestamp : Int64) (hparams : m.payload = some params) :
    ∀ e ∈ requestEntries reqId opType service method endpoint params requestedBy timestamp,
      m.Field e.2 := by
  refine List.forall_mem_append.mpr ⟨List.forall_mem_append.mpr ⟨?_, ?_⟩, ?_⟩
  · simp only [List.forall_mem_cons]
    exact ⟨.inl (.bytes _), .inl (.text _), .inl (.text _), .inl (.text _),
      .inl (.text _), .inr ⟨params, hparams, rfl⟩, List.forall_mem_nil _⟩
  · exact fields_optionalEntry _ _
  · exact List.forall_mem_singleton.mpr (.inl (.ofInt64 _))

/-- Every field but the payload is plain. -/
theorem WireMessage.fields (m : WireMessage) : ∀ e ∈ m.entries.2, m.Field e.2 := by
  cases m with
  | approvalRequest | executeRequest => exact fields_requestEntries _ _ _ _ _ _ _ rfl
  | approvalResponse m =>
    refine List.forall_mem_append.mpr
      ⟨List.forall_mem_append.mpr ⟨?_, fields_optionalEntry _ _⟩, ?_⟩
    · simp only [List.forall_mem_cons]
      exact ⟨.inl (.bytes _), .inl (.text _), List.forall_mem_nil _⟩
    · exact List.forall_mem_singleton.mpr (.inl (.bytes _))
  | executeResponse m =>
    refine List.forall_mem_append.mpr ⟨List.forall_mem_append.mpr ⟨?_, ?_⟩, ?_⟩
    · simp only [List.forall_mem_cons]
      exact ⟨.inl (.bytes _), .inl (.text _), List.forall_mem_nil _⟩
    · cases m.httpStatus with
      | none => exact List.forall_mem_nil _
      | some code => exact List.forall_mem_singleton.mpr (.inl (.unsigned _))
    · simp only [List.forall_mem_cons]
      exact ⟨.inr ⟨m.body, rfl, rfl⟩, .inl (.ofInt64 _), .inl (.bytes _),
        List.forall_mem_nil _⟩
  | listServicesRequest reqId => exact List.forall_mem_singleton.mpr (.inl (.bytes _))
  | listServicesResponse reqId services =>
    have hservices : Plain (.array (services.map .text)) :=
      .array (List.forall_mem_map.mpr fun s _ => ⟨strict_textTree s, rfl⟩)
    simp only [entries, List.forall_mem_cons]
    exact ⟨.inl (.bytes _), .inl hservices, List.forall_mem_nil _⟩
  | ping | pong =>
    simp only [entries, List.forall_mem_cons]
    exact ⟨.inl (.bytes _), .inl (.ofInt64 _), List.forall_mem_nil _⟩
  | sessionEnd reqId reason =>
    simp only [entries, List.forall_mem_cons]
    exact ⟨.inl (.bytes _), .inl (.text _), List.forall_mem_nil _⟩
  | pairingConfirm m =>
    simp only [entries, List.forall_mem_cons]
    exact ⟨.inl (.octetsItem _), .inl (.octetsItem _), .inl (.bytes _),
      List.forall_mem_nil _⟩
  | pairingAck m =>
    simp only [entries, List.forall_mem_cons]
    exact ⟨.inl (.octetsItem _), .inl (.octetsItem _), .inl (.octetsItem _),
      .inl (.octetsItem _), .inl (.bytes _), List.forall_mem_nil _⟩

theorem WireMessage.payload_mem {v : Json.Value} (h : m.payload = some v) :
    ∃ e ∈ m.entries.2, e.2 = jsonItem v.1 := by
  cases m with
  | approvalRequest m | executeRequest m =>
    cases h
    exact ⟨("params", jsonItem m.params.1), by simp [entries, requestEntries], rfl⟩
  | executeResponse m =>
    cases h
    exact ⟨("body", jsonItem m.body.1), by simp [entries], rfl⟩
  | _ => cases h

theorem WireMessage.keys_nodup (m : WireMessage) :
    ((("type", .text m.entries.1) :: m.entries.2).map Prod.fst).Nodup := by
  cases m with
  | approvalRequest m | executeRequest m =>
    cases h : m.requestedBy <;> simp [entries, requestEntries, optionalEntry, ReqId.entry, h]
  | approvalResponse m =>
    cases h : m.reason <;> simp [entries, optionalEntry, ReqId.entry, h]
  | executeResponse m =>
    cases h : m.httpStatus <;> simp [entries, ReqId.entry, h]
  | _ => simp [entries, ReqId.entry]

theorem WireMessage.strict_item (m : WireMessage) : m.item.tree.Strict := by
  refine strict_map.mpr ⟨m.keys_nodup, List.forall_mem_cons.mpr ⟨strict_textTree _, fun e he => ?_⟩⟩
  rcases m.fields e he with hplain | ⟨v, -, heq⟩
  · exact hplain.strict
  · rw [heq]
    exact strict_jsonItem v.2

/-- Only the payload can make a message deep. -/
theorem WireMessage.height_item_le_iff (m : WireMessage) :
    m.item.tree.height ≤ maxCborNestingDepth ↔ m.Shallow := by
  show heightEntries (entryTrees (_ :: _)) ≤ _ ↔ _
  rw [heightEntries_le_iff, List.forall_mem_cons]
  constructor
  · rintro ⟨-, hentries⟩ v hv
    obtain ⟨e, he, heq⟩ := payload_mem hv
    have hle := hentries e he
    rwa [heq, height_jsonItem] at hle
  · intro hshallow
    refine ⟨Nat.succ_le_succ (Nat.zero_le _), fun e he => ?_⟩
    rcases m.fields e he with hplain | ⟨v, hv, heq⟩
    · exact Nat.le_trans (Nat.succ_le_succ hplain.height) (by decide)
    · rw [heq, height_jsonItem]
      exact hshallow v hv

/-! ## The round trip -/

/-- All that an encoder checks. -/
theorem encode_eq_ok {bytes : Bytes} :
    encode intoWriter m = .ok bytes ↔
      validateSemantics m = .ok () ∧ bytes = write m.item ∧ bytes.length ≤ maxWireMessageBytes := by
  have hwritten : encode intoWriter m = (do
      validateSemantics m
      if maxWireMessageBytes < (write m.item).length then .error .messageTooLarge
      else .ok (write m.item)) := rfl
  rw [hwritten, bind_eq_ok]
  constructor
  · rintro ⟨_, hvalid, hlen⟩
    split_ifs at hlen with hlong
    cases hlen
    exact ⟨hvalid, rfl, Nat.le_of_not_lt hlong⟩
  · rintro ⟨hvalid, rfl, hlen⟩
    exact ⟨(), hvalid, if_neg (Nat.not_lt_of_le hlen)⟩

theorem WireMessage.write_item (m : WireMessage) : ∃ b,
    write m.item = b :: (writeText "type" ++
      (writeText m.entries.1 ++ writeEntries m.entries.2)) := by
  have hshort : m.entries.2.length + 1 < 24 := by
    cases m with
    | approvalRequest q | executeRequest q => cases hby : q.requestedBy <;> simp
      [entries, requestEntries, optionalEntry, hby]
    | approvalResponse q => cases hr : q.reason <;> simp [entries, optionalEntry, hr]
    | executeResponse q => cases hr : q.httpStatus <;> simp [entries, hr]
    | _ => simp [entries]
  refine ⟨UInt8.ofNat (5 * 32 + (m.entries.2.length + 1)), ?_⟩
  rw [item, write, List.length_cons, head_short hshort, writeEntries, write,
    List.append_assoc]
  rfl

/-- The octets begin with the tag, so they tell the kind of message. -/
theorem WireMessage.tag_inj {m' : WireMessage} (h : write m.item = write m'.item) :
    m.entries.1 = m'.entries.1 ∧ writeEntries m.entries.2 = writeEntries m'.entries.2 := by
  obtain ⟨b, hb⟩ := m.write_item
  obtain ⟨b', hb'⟩ := m'.write_item
  have htag : ∀ w : WireMessage, (utf8 w.entries.1).length < 24 := fun w => by
    cases w <;> simp only [entries] <;> decide +kernel
  rw [hb, hb', List.cons.injEq] at h
  exact writeText_append_inj (htag m) (htag m') (List.append_cancel_left h.2)

/-- The octets of a response determine whose it is and what was decided. -/
theorem ApprovalResponse.write_inj {a b : ApprovalResponse}
    (h : write (approvalResponse a).item = write (approvalResponse b).item) :
    a.reqId = b.reqId ∧ a.decision = b.decision := by
  have hentries := (tag_inj h).2
  have hform : ∀ c : ApprovalResponse, writeEntries (approvalResponse c).entries.2 =
      writeText "req_id" ++ (head 2 16 ++ (c.reqId.bytes.1 ++ (writeText "decision" ++
        (writeText c.decision.name ++
          writeEntries (optionalEntry "reason" c.reason ++
            [("signature", .bytes c.signature.1)]))))) := by
    intro c
    simp only [entries, ReqId.entry, List.cons_append, List.nil_append, writeEntries,
      write, c.reqId.bytes.2, List.append_assoc]
  rw [hform a, hform b] at hentries
  have hafter := List.append_cancel_left (List.append_cancel_left hentries)
  obtain ⟨hid, hrest⟩ := List.append_inj hafter (a.reqId.bytes.2.trans b.reqId.bytes.2.symm)
  have hname : ∀ d : Decision, (utf8 d.name).length < 24 := fun d => by cases d <;> decide +kernel
  have hdecision := (writeText_append_inj (hname _) (hname _) (List.append_cancel_left hrest)).1
  have hnames : ∀ d d' : Decision, d.name = d'.name → d = d' := fun d d' => by
    cases d <;> cases d' <;> decide
  refine ⟨?_, hnames _ _ hdecision⟩
  exact congrArg ReqId.mk (Subtype.ext hid)

theorem lt_usizeLimit (h : n ≤ maxWireMessageBytes) : n < 2 ^ 64 :=
  Nat.lt_of_le_of_lt h (by decide)

theorem scanCbor_shallow (hlen : (write m.item).length ≤ maxWireMessageBytes)
    (hshallow : m.Shallow) : scanCbor (write m.item) = .ok () := by
  have hlen := lt_usizeLimit hlen
  refine (scanCbor_ok_iff hlen).mpr ⟨m.item.tree, bytes_tree _, ?_⟩
  exact good_iff.mpr ⟨wellFormed_tree _ hlen, m.strict_item, m.height_item_le_iff.mpr hshallow⟩

/-- Too deep a payload fails the preflight, and with that error. -/
theorem scanCbor_deep (hlen : (write m.item).length ≤ maxWireMessageBytes) (hdeep : ¬ m.Shallow) :
    scanCbor (write m.item) = .error (.err .nestingTooDeep) := by
  have hlen := lt_usizeLimit hlen
  have hheight : maxCborNestingDepth + 1 ≤ m.item.tree.height :=
    Nat.lt_of_not_le fun hle => hdeep (m.height_item_le_iff.mp hle)
  have hrefuses := refuses_scanItem _ m.item (wellFormed_tree _ hlen) m.strict_item hheight
  rw [bytes_tree] at hrefuses
  obtain ⟨c, hscan⟩ := hrefuses (write m.item) ⟨0, 0⟩ hlen (Nat.zero_le _) List.prefix_rfl
  exact scanCbor_error hscan

section RoundTrip

variable {fromReader : Bytes → Except String WireMessage} {m : WireMessage} {bytes : Bytes}

/-- What was encoded is decoded, if it is shallow. -/
theorem decode_encoded (henc : encode intoWriter m = .ok bytes) (hshallow : m.Shallow)
    (hback : fromReader bytes = .ok m) : decode fromReader bytes = .ok m := by
  obtain ⟨hvalid, rfl, hlen⟩ := encode_eq_ok.mp henc
  exact (decode_eq_ok fromReader).mpr ⟨hlen, scanCbor_shallow hlen hshallow, hback, hvalid⟩

/-- The preflight does not let a deep message get as far as the reader. -/
theorem decode_encoded_deep (henc : encode intoWriter m = .ok bytes)
    (hdeep : ¬ m.Shallow) : decode fromReader bytes = .error (.err .nestingTooDeep) := by
  obtain ⟨-, rfl, hlen⟩ := encode_eq_ok.mp henc
  exact decode_of_scan_error fromReader hlen (scanCbor_deep hlen hdeep)

end RoundTrip

/-- ciborium writes the standard encoding, with definite lengths, of the item serde makes. -/
def WritesStandard (ciborium : WireMessage → Except String Bytes) : Prop :=
  ∀ m, ciborium m = .ok (write m.item)

/-- **What comes back from the wire.** Where ciborium writes the standard encoding and reads an
encoded message back, `decode` returns it exactly if its payload is shallow, and otherwise
refuses its nesting. -/
theorem codec_round_trip (ciborium : WireMessage → Except String Bytes)
    (fromReader : Bytes → Except String WireMessage) (hwrites : WritesStandard ciborium)
    (m : WireMessage) (bytes : Bytes) (henc : encode ciborium m = .ok bytes)
    (hback : fromReader bytes = .ok m) :
    (decode fromReader bytes = .ok m ↔ m.Shallow) ∧
      (¬ m.Shallow → decode fromReader bytes = .error (.err .nestingTooDeep)) := by
  obtain rfl : ciborium = intoWriter := funext hwrites
  refine ⟨⟨fun hdec => ?_, fun hshallow => decode_encoded henc hshallow hback⟩,
    decode_encoded_deep henc⟩
  by_contra hdeep
  rw [decode_encoded_deep henc hdeep] at hdec
  cases hdec

/-- So many brackets around an empty list. -/
def brackets : Nat → Json.Value
  | 0 => ⟨.array [], trivial⟩
  | n + 1 => ⟨.array [(brackets n).1], (brackets n).2, trivial⟩

theorem nesting_brackets (n : Nat) : (brackets n).1.nesting = n := by
  induction n with
  | zero => rfl
  | succ n ih =>
    show max ((brackets n).1.nesting + 1) 0 = n + 1
    rw [ih, Nat.max_zero]

/-- A request with bracketed parameters. -/
def bracketRequest (n : Nat) : WireMessage :=
  .approvalRequest
    { reqId := ⟨.replicate 16 7⟩, opType := .authenticatedRequest, service := "github",
      method := "GET", endpoint := "/user", params := brackets n, requestedBy := none,
      timestamp := 1700000000 }

/-- Parameters 64 levels deep encode to 205 octets, and no reader gets to see them. -/
theorem deep_params_encode_and_never_decode :
    (encode WireMessage.intoWriter (bracketRequest 64) = .ok (write (bracketRequest 64).item)) ∧
    ∀ fromReader : Bytes → Except String WireMessage,
      decode fromReader (write (bracketRequest 64).item) = .error (.err .nestingTooDeep) := by
  have henc : encode WireMessage.intoWriter (bracketRequest 64) =
      .ok (write (bracketRequest 64).item) :=
    encode_eq_ok.mpr ⟨by decide, rfl, by decide +kernel⟩
  have hdeep : ¬ (bracketRequest 64).Shallow := by
    intro h
    have hlt := h (brackets 64) rfl
    rw [nesting_brackets] at hlt
    exact absurd hlt (by decide)
  exact ⟨henc, fun fromReader => decode_encoded_deep henc hdeep⟩

/-- One level less comes back. -/
theorem shallow_params_round_trip : (bracketRequest 63).Shallow ∧
    decode (fun bytes => if bytes = write (bracketRequest 63).item then .ok (bracketRequest 63)
        else .error "unexpected") (write (bracketRequest 63).item) = .ok (bracketRequest 63) := by
  have hshallow : (bracketRequest 63).Shallow := by
    intro v hv
    cases hv
    rw [nesting_brackets]
    decide
  have henc : encode WireMessage.intoWriter (bracketRequest 63) =
      .ok (write (bracketRequest 63).item) :=
    encode_eq_ok.mpr ⟨by decide, rfl, by decide +kernel⟩
  exact ⟨hshallow,
    (codec_round_trip intoWriter _ (fun _ => rfl) _ _ henc (if_pos rfl)).1.mpr hshallow⟩

end Conveyance.Protocol
