import Mathlib.Data.List.Sort
import Mathlib.Data.String.Basic
import Mathlib.Algebra.Ring.Int.Defs

/-!
# JSON values

`Json` is the tree a JSON text denotes. Integers that fit 64 bits are kept
exactly and every other number is a double, held by its bits. An object is a
finite map from strings, represented by its members in strictly increasing key
order; `Json.Ordered` says so for every object of a tree, and `Json.Value` is a
tree together with that proof, so that equal values are equal trees. A value
with named fields is built by `Value.object`, which keeps the invariant and
forgets nothing but the fields' order (`Value.object_inj`).
-/

namespace Lib

/-- A JSON number: a non-negative or a negative 64-bit integer, or a double. -/
inductive Json.Number where
  | posInt (n : UInt64)
  | negInt (i : Int) (lower : -2 ^ 63 ≤ i) (neg : i < 0)
  | float (bits : UInt64)
deriving DecidableEq

/-- The tree a JSON text denotes. -/
inductive Json where
  | null
  | bool (b : Bool)
  | number (n : Json.Number)
  | string (s : String)
  | array (items : List Json)
  | object (members : List (String × Json))

namespace Json

/-! ## Induction -/

/-- Induction on a tree, with the hypothesis for every item and every member. -/
@[elab_as_elim]
theorem induct {P : Json → Prop} (null : P .null) (bool : ∀ b, P (.bool b))
    (number : ∀ n, P (.number n)) (string : ∀ s, P (.string s))
    (array : ∀ items, (∀ x ∈ items, P x) → P (.array items))
    (object : ∀ members, (∀ m ∈ members, P m.2) → P (.object members)) (j : Json) : P j :=
  @Json.rec P (fun items => ∀ x ∈ items, P x) (fun members => ∀ m ∈ members, P m.2)
    (fun m => P m.2) null bool number string array object
    (fun _ h => absurd h List.not_mem_nil)
    (fun _ _ hx hxs => List.forall_mem_cons.mpr ⟨hx, hxs⟩)
    (fun _ h => absurd h List.not_mem_nil)
    (fun _ _ hm hms => List.forall_mem_cons.mpr ⟨hm, hms⟩)
    (fun _ _ hv => hv) j

/-- A double stands somewhere in the tree. -/
inductive HasFloat : Json → Prop where
  | here (bits : UInt64) : HasFloat (.number (.float bits))
  | item {items : List Json} {x : Json} : x ∈ items → HasFloat x → HasFloat (.array items)
  | member {members : List (String × Json)} {m : String × Json} :
    m ∈ members → HasFloat m.2 → HasFloat (.object members)

variable {items : List Json} {members : List (String × Json)} {k k' : String} {p : String × Json}
  {j : Json} {n : Nat}

theorem hasFloat_array : HasFloat (.array items) ↔ ∃ x ∈ items, HasFloat x :=
  ⟨fun | .item hx h => ⟨_, hx, h⟩, fun ⟨_, hx, h⟩ => .item hx h⟩

theorem hasFloat_object : HasFloat (.object members) ↔ ∃ m ∈ members, HasFloat m.2 :=
  ⟨fun | .member hm h => ⟨_, hm, h⟩, fun ⟨_, hm, h⟩ => .member hm h⟩

mutual
/-- How deep the deepest value lies below this one. -/
def nesting : Json → Nat
  | .array items => nestingItems items
  | .object members => nestingMembers members
  | _ => 0
def nestingItems : List Json → Nat
  | [] => 0
  | x :: xs => max (x.nesting + 1) (nestingItems xs)
def nestingMembers : List (String × Json) → Nat
  | [] => 0
  | (_, x) :: xs => max (x.nesting + 1) (nestingMembers xs)
end

/-! ## Objects as maps -/

/-- Members in strictly increasing key order: the listing of a finite map. -/
def Sorted (members : List (String × Json)) : Prop :=
  members.Pairwise fun a b => a.1 < b.1

mutual
/-- Every object of the tree lists its members as a map does. -/
def Ordered : Json → Prop
  | .array items => OrderedItems items
  | .object members => Sorted members ∧ OrderedMembers members
  | _ => True
def OrderedItems : List Json → Prop
  | [] => True
  | x :: xs => x.Ordered ∧ OrderedItems xs
def OrderedMembers : List (String × Json) → Prop
  | [] => True
  | (_, x) :: xs => x.Ordered ∧ OrderedMembers xs
end

theorem orderedItems_iff : OrderedItems items ↔ ∀ x ∈ items, x.Ordered := by
  induction items with
  | nil => simp [OrderedItems]
  | cons x xs ih => rw [OrderedItems, ih, List.forall_mem_cons]

theorem orderedMembers_iff : OrderedMembers members ↔ ∀ m ∈ members, m.2.Ordered := by
  induction members with
  | nil => simp [OrderedMembers]
  | cons m ms ih => rw [OrderedMembers, ih, List.forall_mem_cons]

/-- Insert a member; a key that is already there gets the new value. -/
def insertMember (k : String) (v : Json) : List (String × Json) → List (String × Json)
  | [] => [(k, v)]
  | (k', v') :: rest =>
    if k < k' then (k, v) :: (k', v') :: rest
    else if k = k' then (k, v) :: rest
    else (k', v') :: insertMember k v rest

/-- Nothing else comes in. -/
theorem mem_insertMember {v : Json} :
    ∀ {l : List (String × Json)}, p ∈ insertMember k v l → p = (k, v) ∨ p ∈ l
  | [], h => .inl (List.mem_singleton.mp h)
  | (k', v') :: rest, h => by
    unfold insertMember at h
    split at h
    · exact (List.mem_cons.mp h).imp_right id
    · split at h
      · exact (List.mem_cons.mp h).imp_right (List.mem_cons_of_mem _)
      · rcases List.mem_cons.mp h with h | h
        · exact .inr (h ▸ List.mem_cons_self)
        · exact (mem_insertMember h).imp_right (List.mem_cons_of_mem _)

/-- Inserting keeps the order. -/
theorem sorted_insertMember (k : String) (v : Json) :
    ∀ {l : List (String × Json)}, Sorted l → Sorted (insertMember k v l)
  | [], _ => List.pairwise_singleton _ _
  | (k', v') :: rest, h => by
    have htail := (List.pairwise_cons.mp h).2
    have hhead := (List.pairwise_cons.mp h).1
    unfold insertMember
    split
    · next hlt =>
      refine List.pairwise_cons.mpr ⟨fun p hp => ?_, h⟩
      rcases List.mem_cons.mp hp with rfl | hp
      · exact hlt
      · exact lt_trans hlt (hhead p hp)
    · next hlt =>
      split
      · next heq => exact List.pairwise_cons.mpr ⟨fun p hp => heq ▸ hhead p hp, htail⟩
      · next hne =>
        refine List.pairwise_cons.mpr ⟨fun p hp => ?_, sorted_insertMember k v htail⟩
        rcases mem_insertMember hp with rfl | hp
        · exact lt_of_le_of_ne (not_lt.mp hlt) (Ne.symm hne)
        · exact hhead p hp

/-- A new key adds its member, and nothing is lost. -/
theorem perm_insertMember {v : Json} :
    ∀ {l : List (String × Json)}, (∀ p ∈ l, p.1 ≠ k) → (insertMember k v l).Perm ((k, v) :: l)
  | [], _ => List.Perm.refl _
  | (k', v') :: rest, h => by
    unfold insertMember
    split
    · exact List.Perm.refl _
    · rw [if_neg (fun heq => h (k', v') List.mem_cons_self heq.symm)]
      exact ((perm_insertMember fun p hp => h p (List.mem_cons_of_mem _ hp)).cons _).trans
        (List.Perm.swap _ _ _)

/-- Insert members one after another. -/
def insertAll (acc members : List (String × Json)) : List (String × Json) :=
  members.foldl (fun acc m => insertMember m.1 m.2 acc) acc

theorem mem_insertAll :
    ∀ {acc : List (String × Json)}, p ∈ insertAll acc members → p ∈ acc ∨ p ∈ members := by
  induction members with
  | nil => exact fun h => .inl h
  | cons m members ih =>
    intro acc h
    rcases ih h with h | h
    · rcases mem_insertMember h with rfl | h
      · exact .inr List.mem_cons_self
      · exact .inl h
    · exact .inr (List.mem_cons_of_mem _ h)

theorem sorted_insertAll (members : List (String × Json)) :
    ∀ {acc : List (String × Json)}, Sorted acc → Sorted (insertAll acc members) := by
  induction members with
  | nil => exact fun h => h
  | cons m members ih => exact fun h => ih (sorted_insertMember m.1 m.2 h)

/-- Distinct keys are all kept. -/
theorem perm_insertAll (members : List (String × Json)) :
    ∀ {acc : List (String × Json)}, ((acc ++ members).map Prod.fst).Nodup →
      (insertAll acc members).Perm (acc ++ members) := by
  induction members with
  | nil => intro acc _; rw [List.append_nil]; exact List.Perm.refl _
  | cons m members ih =>
    intro acc hnodup
    have hmove : (acc ++ m :: members).Perm ((m :: acc) ++ members) := List.perm_middle
    have hnodup' : (((m :: acc) ++ members).map Prod.fst).Nodup :=
      (hmove.map Prod.fst).nodup_iff.mp hnodup
    have hfresh : ∀ p ∈ acc, p.1 ≠ m.1 := by
      intro p hp heq
      have hnot := (List.nodup_cons.mp hnodup').1
      exact hnot (heq ▸ List.mem_map_of_mem (List.mem_append_left members hp))
    have hstep : (insertMember m.1 m.2 acc).Perm (m :: acc) := perm_insertMember hfresh
    have happ : (insertMember m.1 m.2 acc ++ members).Perm ((m :: acc) ++ members) :=
      hstep.append_right members
    refine (ih ((happ.map Prod.fst).nodup_iff.mpr hnodup')).trans (happ.trans hmove.symm)

theorem Sorted.nodup_keys (h : Sorted members) : (members.map Prod.fst).Nodup :=
  List.Pairwise.map _ (fun _ _ hlt => ne_of_lt hlt) h

/-- **A map does not remember insertion order**: inserting the members of a map
in any order gives its listing back. -/
theorem insertAll_of_perm {listing : List (String × Json)} (hsorted : Sorted listing)
    (hperm : members.Perm listing) : insertAll [] members = listing := by
  have hnodup : (([] ++ members).map Prod.fst).Nodup :=
    (hperm.map Prod.fst).nodup_iff.mpr hsorted.nodup_keys
  refine List.Perm.eq_of_pairwise (fun a b _ _ hab hba => ?_)
    (sorted_insertAll members List.Pairwise.nil) hsorted
    ((perm_insertAll members hnodup).trans hperm)
  exact absurd hba (lt_asymm hab)

mutual
def decidableOrdered : (j : Json) → Decidable j.Ordered
  | .null => .isTrue trivial
  | .bool _ => .isTrue trivial
  | .number _ => .isTrue trivial
  | .string _ => .isTrue trivial
  | .array items => decidableOrderedItems items
  | .object members =>
    @instDecidableAnd _ _ (inferInstanceAs (Decidable (List.Pairwise _ _)))
      (decidableOrderedMembers members)
def decidableOrderedItems : (items : List Json) → Decidable (OrderedItems items)
  | [] => .isTrue trivial
  | x :: xs => @instDecidableAnd _ _ (decidableOrdered x) (decidableOrderedItems xs)
def decidableOrderedMembers : (members : List (String × Json)) → Decidable (OrderedMembers members)
  | [] => .isTrue trivial
  | (_, x) :: xs => @instDecidableAnd _ _ (decidableOrdered x) (decidableOrderedMembers xs)
end

instance (j : Json) : Decidable j.Ordered := decidableOrdered j

/-- A JSON value: a tree all of whose objects are maps. -/
abbrev Value := { j : Json // j.Ordered }

/-! ## Building values -/

def Value.null : Value := ⟨.null, trivial⟩

def Value.string (s : String) : Value := ⟨.string s, trivial⟩

def Value.number (n : Number) : Value := ⟨.number n, trivial⟩

/-- A signed 64-bit integer. -/
def Number.ofInt64 (i : Int64) : Number :=
  if h : i.toInt < 0 then .negInt i.toInt i.le_toInt h
  else .posInt (UInt64.ofNat i.toInt.toNat)

/-- A 64-bit integer is kept exactly. -/
theorem Number.ofInt64_inj {i j : Int64} (h : Number.ofInt64 i = Number.ofInt64 j) : i = j := by
  have hi := i.toInt_lt
  have hj := j.toInt_lt
  unfold Number.ofInt64 at h
  split_ifs at h with hineg hjneg
  · exact Int64.toInt_inj.mp (Number.negInt.inj h)
  · have hnat := congrArg UInt64.toNat (Number.posInt.inj h)
    rw [UInt64.toNat_ofNat', UInt64.toNat_ofNat'] at hnat
    exact Int64.toInt_inj.mp (by omega)

/-- An object from its fields, inserted in the order given. -/
def Value.object (fields : List (String × Value)) : Value :=
  ⟨.object (insertAll [] (fields.map fun f => (f.1, f.2.1))), by
    refine ⟨sorted_insertAll _ List.Pairwise.nil, orderedMembers_iff.mpr fun m hm => ?_⟩
    obtain hm | hm := mem_insertAll hm
    · exact absurd hm List.not_mem_nil
    · obtain ⟨f, -, rfl⟩ := List.mem_map.mp hm
      exact f.2.2⟩

variable {fs gs : List (String × Value)}

/-- Distinct fields are the members of their object. -/
theorem Value.perm_members (h : (fs.map Prod.fst).Nodup) :
    (insertAll [] (fs.map fun f => (f.1, f.2.1))).Perm (fs.map fun f => (f.1, f.2.1)) :=
  perm_insertAll _ (by rw [List.nil_append, List.map_map]; exact h)

/-- The order in which distinct fields are given does not matter. -/
theorem Value.object_perm (hgs : (gs.map Prod.fst).Nodup) (h : fs.Perm gs) :
    Value.object fs = Value.object gs := by
  refine Subtype.ext (congrArg Json.object (insertAll_of_perm ?_ ?_))
  · exact sorted_insertAll _ List.Pairwise.nil
  · exact (h.map _).trans (Value.perm_members hgs).symm

/-- Objects built from distinct fields are equal only when the fields are. -/
theorem Value.object_inj (hfs : (fs.map Prod.fst).Nodup) (hgs : (gs.map Prod.fst).Nodup)
    (h : Value.object fs = Value.object gs) {f : String × Value} (hf : f ∈ fs) : f ∈ gs := by
  have heq : insertAll [] (fs.map fun f => (f.1, f.2.1)) =
      insertAll [] (gs.map fun f => (f.1, f.2.1)) :=
    Json.object.inj (congrArg Subtype.val h)
  have hperm := (Value.perm_members hfs).symm.trans (heq ▸ Value.perm_members hgs)
  obtain ⟨g, hg, hfg⟩ := List.mem_map.mp (hperm.mem_iff.mp (List.mem_map_of_mem hf))
  obtain ⟨hkey, hval⟩ := Prod.mk.inj hfg
  rwa [show f = g from Prod.ext hkey.symm (Subtype.ext hval.symm)]

variable {x : Value}

/-- So a field present in both has one value. -/
theorem Value.object_field_eq (hfs : (fs.map Prod.fst).Nodup) (hgs : (gs.map Prod.fst).Nodup)
    (h : Value.object fs = Value.object gs) {y : Value} (hx : (k, x) ∈ fs) (hy : (k, y) ∈ gs) :
    x = y := by
  have hmem := Value.object_inj hfs hgs h hx
  exact (Prod.mk.inj (List.inj_on_of_nodup_map hgs hmem hy rfl)).2

/-- A field that is there exactly when an option has a value determines the option. -/
theorem Value.object_option_eq {α : Type} (hfs : (fs.map Prod.fst).Nodup)
    (hgs : (gs.map Prod.fst).Nodup) (h : Value.object fs = Value.object gs) {f : α → Value}
    {o o' : Option α} (ho : ∀ x, (k, f x) ∈ fs ↔ o = some x)
    (ho' : ∀ x, (k, f x) ∈ gs ↔ o' = some x) : o = o' := by
  refine Option.ext fun x => ⟨fun hx => ?_, fun hx => ?_⟩
  · exact (ho' x).mp (Value.object_inj hfs hgs h ((ho x).mpr hx))
  · exact (ho x).mp (Value.object_inj hgs hfs h.symm ((ho' x).mpr hx))

theorem Value.string_inj {s t : String} (h : Value.string s = Value.string t) : s = t :=
  Json.string.inj (congrArg Subtype.val h)

theorem Value.number_inj {m n : Number} (h : Value.number m = Value.number n) : m = n :=
  Json.number.inj (congrArg Subtype.val h)

variable {fields : List (String × Value)}

theorem Value.hasFloat_object :
    (Value.object fields).1.HasFloat → ∃ f ∈ fields, f.2.1.HasFloat := by
  intro h
  obtain ⟨m, hm, hfloat⟩ := Json.hasFloat_object.mp h
  obtain hm | hm := mem_insertAll hm
  · exact absurd hm List.not_mem_nil
  · obtain ⟨f, hf, rfl⟩ := List.mem_map.mp hm
    exact ⟨f, hf, hfloat⟩

def Value.isNull (v : Value) : Bool :=
  match v.1 with
  | .null => true
  | _ => false

variable {v : Value}

theorem Value.isNull_iff : v.isNull = true ↔ v = .null := by
  obtain ⟨j, hj⟩ := v
  cases j with
  | null => exact ⟨fun _ => rfl, fun _ => rfl⟩
  | _ => exact ⟨fun h => (by cases h), fun h => (by cases h)⟩

/-! ## Reading members -/

/-- The value of a member; a value that is no object has none. -/
def get (j : Json) (k : String) : Option Json :=
  match j with
  | .object members => (members.find? fun m => m.1 = k).map Prod.snd
  | _ => none

theorem Ordered.get {x : Json} (h : j.Ordered) (hx : j.get k = some x) : x.Ordered := by
  cases j with
  | object members =>
    obtain ⟨m, hm, rfl⟩ := Option.map_eq_some_iff.mp hx
    exact orderedMembers_iff.mp h.2 m (List.mem_of_find?_eq_some hm)
  | _ => cases hx

def Value.get (v : Value) (k : String) : Option Value :=
  (v.1.get k).pmap Subtype.mk fun _ hx => v.2.get hx

/-- Drop a member, if the value is an object that has it. -/
def remove (j : Json) (k : String) : Json :=
  match j with
  | .object members => .object (members.filter fun m => m.1 ≠ k)
  | _ => j

theorem Ordered.remove (h : j.Ordered) (k : String) : (j.remove k).Ordered := by
  cases j with
  | object members =>
    refine ⟨h.1.filter _, orderedMembers_iff.mpr fun m hm => ?_⟩
    exact orderedMembers_iff.mp h.2 m (List.mem_of_mem_filter hm)
  | _ => exact h

def Value.remove (v : Value) (k : String) : Value := ⟨v.1.remove k, v.2.remove k⟩

/-- Removing a member leaves the others. -/
theorem get_remove (hne : k' ≠ k) : (j.remove k).get k' = j.get k' := by
  cases j with
  | object members =>
    simp only [Json.remove, Json.get, List.find?_filter]
    congr 2
    funext m
    by_cases hm : m.1 = k'
    · simp [hm, hne]
    · simp [hm]
  | _ => rfl

theorem Value.get_eq_some : v.get k = some x ↔ v.1.get k = some x.1 := by
  rw [Value.get, Option.pmap_eq_some_iff]
  constructor
  · rintro ⟨j, hj, hget, rfl⟩
    exact hget
  · intro hget
    exact ⟨x.1, v.2.get hget, hget, rfl⟩

theorem Value.get_remove (hne : k' ≠ k) : (v.remove k).get k' = v.get k' := by
  refine Option.ext fun x => ?_
  rw [Value.get_eq_some, Value.get_eq_some, Value.remove, Json.get_remove hne]

/-- With distinct names, a member is found under its own. -/
theorem get_object_of_mem (hnodup : (members.map Prod.fst).Nodup) {m : String × Json}
    (hm : m ∈ members) : (Json.object members).get m.1 = some m.2 := by
  rw [Json.get, Option.map_eq_some_iff]
  -- the first member with this key is the only one
  cases hfind : members.find? (fun m' => m'.1 = m.1) with
  | none =>
    have hnone := List.find?_eq_none.mp hfind m hm
    simp at hnone
  | some m' =>
    have hkey := List.find?_some hfind
    rw [decide_eq_true_eq] at hkey
    refine ⟨m', rfl, ?_⟩
    rw [List.inj_on_of_nodup_map hnodup (List.mem_of_find?_eq_some hfind) hm hkey]

/-- The members of an object built from distinct fields are these fields. -/
theorem Value.get_object (hnodup : (fields.map Prod.fst).Nodup) :
    (Value.object fields).get k = some x ↔ (k, x) ∈ fields := by
  have hperm := Value.perm_members hnodup
  have hmembers : ((insertAll [] (fields.map fun f => (f.1, f.2.1))).map Prod.fst).Nodup := by
    rw [(hperm.map Prod.fst).nodup_iff, List.map_map]
    exact hnodup
  have hlisted : (k, x.1) ∈ insertAll [] (fields.map fun f => (f.1, f.2.1)) ↔ (k, x) ∈ fields := by
    rw [hperm.mem_iff, List.mem_map]
    constructor
    · rintro ⟨f, hf, heq⟩
      obtain ⟨hkey, hval⟩ := Prod.mk.inj heq
      rwa [show (k, x) = f from Prod.ext hkey.symm (Subtype.ext hval.symm)]
    · exact fun h => ⟨_, h, rfl⟩
  rw [Value.get_eq_some, ← hlisted, Value.object]
  constructor
  · intro hget
    obtain ⟨m, hm, hx⟩ := Option.map_eq_some_iff.mp hget
    have hkey := List.find?_some hm
    rw [decide_eq_true_eq] at hkey
    rw [← hkey, ← hx]
    exact List.mem_of_find?_eq_some hm
  · exact fun hmem => get_object_of_mem hmembers hmem

/-- A double in a member stands in the object. -/
theorem HasFloat.of_get {x : Json} (hx : j.get k = some x) (h : x.HasFloat) : j.HasFloat := by
  cases j with
  | object members =>
    obtain ⟨m, hm, rfl⟩ := Option.map_eq_some_iff.mp hx
    exact .member (List.mem_of_find?_eq_some hm) h
  | _ => cases hx

theorem nestingMembers_le (h : ∀ m ∈ members, m.2.nesting < n) : nestingMembers members ≤ n := by
  induction members with
  | nil => exact Nat.zero_le n
  | cons m ms ih =>
    obtain ⟨hm, hms⟩ := List.forall_mem_cons.mp h
    exact Nat.max_le.mpr ⟨hm, ih hms⟩

/-- An object lies one level above its fields. -/
theorem Value.nesting_object (h : ∀ f ∈ fields, f.2.1.nesting < n) :
    (Value.object fields).1.nesting ≤ n := by
  refine nestingMembers_le fun m hm => ?_
  obtain hm | hm := mem_insertAll hm
  · exact absurd hm List.not_mem_nil
  · obtain ⟨f, hf, rfl⟩ := List.mem_map.mp hm
    exact h f hf

theorem Value.ofInt64_noFloat (i : Int64) : ¬ (Value.number (.ofInt64 i)).1.HasFloat := by
  unfold Number.ofInt64
  split_ifs <;> exact nofun

end Json

end Lib
