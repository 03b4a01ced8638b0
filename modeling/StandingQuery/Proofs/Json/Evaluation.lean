import StandingQuery.Proofs.Json.Fingerprint
import Mathlib.Data.List.Sort

/-!
# Evaluating digests

The digests of members are sorted by merging, which the kernel does not evaluate. Sorted by insertion
they are the same, so whether given values are digested without collision can be decided.
-/

namespace StandingQuery.Json

/-- Digests in increasing order, sorted by insertion. -/
def insertDigests (ds : List Digest) : List Digest := ds.insertionSort fun a b => (compare a b).isLE

theorem sortDigests_eq_insertDigests (ds : List Digest) : sortDigests ds = insertDigests ds := by
  have htrans : IsTrans Digest fun a b => (compare a b).isLE = true :=
    ⟨fun _ _ _ => Std.TransCmp.isLE_trans⟩
  have htotal : Std.Total fun a b : Digest => (compare a b).isLE = true := by
    refine ⟨fun a b => ?_⟩
    have hswap : compare b a = (compare a b).swap := Std.OrientedCmp.eq_swap
    rw [hswap]
    cases compare a b <;> simp
  have hsorted : sortDigests (insertDigests ds) = insertDigests ds :=
    List.mergeSort_of_pairwise (List.pairwise_insertionSort _ ds)
  rw [← hsorted]
  exact sortDigests_eq_iff.2 (List.perm_insertionSort _ ds).symm

namespace Value

mutual

/-- The bytes of the message. -/
def bytes : Value → List UInt8
  | null => [0]
  | bool b => [1, if b then 1 else 0]
  | number n => 2 :: octets (textBytes n.text)
  | string s => 3 :: octets (textBytes s)
  | array items => 4 :: octets (lengthBytes items.length) ++ bytesItems items
  | object ms => 5 :: octets (lengthBytes ms.length) ++
      (insertDigests ((bytesMembers ms).map fun bs => .ofMessage ⟨bs.toArray⟩)).flatMap Digest.bytes

def bytesItems : List Value → List UInt8
  | [] => []
  | v :: vs => v.bytes ++ bytesItems vs

/-- What is digested for each member. -/
def bytesMembers : List (String × Value) → List (List UInt8)
  | [] => []
  | (k, v) :: ms => (octets (textBytes k) ++ v.bytes) :: bytesMembers ms

end

theorem bytesItems_eq (items : List Value) : bytesItems items = items.flatMap bytes := by
  induction items with
  | nil => rfl
  | cons v items ih => rw [bytesItems, ih, List.flatMap_cons]

theorem bytesMembers_eq (ms : List (String × Value)) :
    bytesMembers ms = ms.map fun m => octets (textBytes m.1) ++ m.2.bytes := by
  induction ms with
  | nil => rfl
  | cons m ms ih => rw [bytesMembers, ih, List.map_cons]

theorem octets_message (v : Value) : octets v.message = v.bytes := by
  induction v using Value.induction with
  | null => rfl
  | bool b => rfl
  | number n => rw [octets_number, bytes]
  | string s => rw [octets_string, bytes]
  | array items ih =>
    rw [octets_array, bytes, bytesItems_eq]
    exact congrArg _ (List.flatMap_congr ih)
  | object ms ih =>
    rw [octets_object, bytes, sortDigests_eq_insertDigests, bytesMembers_eq, List.map_map]
    have hentry (m : String × Value) (hm : m ∈ ms) :
        entry m = ⟨(octets (textBytes m.1) ++ m.2.bytes).toArray⟩ := by
      apply octets_injective
      rw [entry, octets_append, ih m hm]
      rfl
    rw [List.map_congr_left fun m hm => congrArg Digest.ofMessage (hentry m hm)]
    rfl

/-- The bytes of all that is digested on the way to the digest. -/
def digestedBytes (v : Value) : List (List UInt8) :=
  v.bytes :: v.parts.flatMap fun
    | object ms => bytesMembers ms
    | _ => []

theorem octets_digested (v : Value) : v.digested.map octets = v.digestedBytes := by
  rw [digested, digestedBytes, List.map_cons, octets_message, List.map_flatMap]
  congr 2
  funext c
  cases c with
  | object ms => simp [entries, entry, bytesMembers_eq, octets_message]
  | _ => rfl

/-- A given value is digested without collision if evaluation finds none. -/
theorem unequivocal_of_bytes {v : Value}
    (h : (v.digestedBytes.map fun bs => Digest.ofMessage ⟨bs.toArray⟩).Nodup) :
    Unequivocal v.digested := by
  intro x hx y hy hxy
  have hmem (z : ByteArray) (hz : z ∈ v.digested) : octets z ∈ v.digestedBytes :=
    octets_digested v ▸ List.mem_map_of_mem hz
  exact octets_injective (List.inj_on_of_nodup_map h (hmem x hx) (hmem y hy) hxy)

/-! ## Reordered values -/

/-- The message is digested for some member inside the value. -/
def HasEntry (x : ByteArray) (v : Value) : Prop := ∃ c, Occurs c v ∧ x ∈ entries c

theorem mem_digested {x : ByteArray} {v : Value} : x ∈ v.digested ↔ x = v.message ∨ HasEntry x v := by
  simp [digested, HasEntry, occurs_iff_mem_parts]

theorem hasEntry_array {x : ByteArray} {items : List Value} :
    HasEntry x (.array items) ↔ ∃ v ∈ items, HasEntry x v := by
  constructor
  · rintro ⟨c, hc, hx⟩
    cases hc with
    | here => simp [entries] at hx
    | item hv hc => exact ⟨_, hv, c, hc, hx⟩
  · rintro ⟨v, hv, c, hc, hx⟩
    exact ⟨c, .item hv hc, hx⟩

theorem hasEntry_object {x : ByteArray} {ms : List (String × Value)} :
    HasEntry x (.object ms) ↔ ∃ m ∈ ms, x = entry m ∨ HasEntry x m.2 := by
  constructor
  · rintro ⟨c, hc, hx⟩
    cases hc with
    | here =>
      obtain ⟨m, hm, rfl⟩ := List.mem_map.1 hx
      exact ⟨m, hm, .inl rfl⟩
    | member hm hc => exact ⟨_, hm, .inr ⟨c, hc, hx⟩⟩
  · rintro ⟨m, hm, rfl | ⟨c, hc, hx⟩⟩
    · exact ⟨.object ms, .here _, List.mem_map_of_mem hm⟩
    · exact ⟨c, .member hm hc, hx⟩

theorem Reorders.hasEntry {v w : Value} (h : Reorders v w) {x : ByteArray} (hx : HasEntry x w) :
    HasEntry x v := by
  induction h with
  | refl => exact hx
  | trans _ _ ihuv ihvw => exact ihuv (ihvw hx)
  | number =>
    obtain ⟨c, hc, hx⟩ := hx
    cases hc
    simp [entries] at hx
  | item xs ys _ ih =>
    simp only [hasEntry_array, List.mem_append, List.mem_cons, or_and_right, exists_or,
      exists_eq_left] at hx ⊢
    exact hx.imp_right (Or.imp_left ih)
  | @member v w ms ns key h ih =>
    have hentry : entry (key, w) = entry (key, v) := by rw [entry, entry, h.message_eq]
    simp only [hasEntry_object, List.mem_append, List.mem_cons, or_and_right, exists_or,
      exists_eq_left, hentry] at hx ⊢
    exact hx.imp_right (Or.imp_left (Or.imp_right ih))
  | perm hperm =>
    simp only [hasEntry_object, hperm.mem_iff] at hx ⊢
    exact hx

/-- Reordering brings no new messages. -/
theorem Reorders.digested_subset {v w : Value} (h : Reorders v w) : w.digested ⊆ v.digested := by
  intro x hx
  rw [mem_digested] at hx ⊢
  exact hx.imp (·.trans h.message_eq.symm) h.hasEntry

theorem Reorders.unequivocal {v w : Value} (h : Reorders v w) (hv : Unequivocal v.digested) :
    Unequivocal (v.digested ++ w.digested) :=
  hv.mono fun _ hx => (List.mem_append.1 hx).elim id fun hx => h.digested_subset hx

end Value
end StandingQuery.Json
