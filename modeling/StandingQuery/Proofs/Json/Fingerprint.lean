import Mathlib.Algebra.GroupWithZero.Nat
import Mathlib.Data.List.Forall2
import StandingQuery.Json.Fingerprint
import StandingQuery.Proofs.Json.Occurrence

/-!
# What structural digests tell apart

The message of a value is prefix free: it ends where the value ends, whatever follows. So values with
one digest differ in the order of members only, unless two different messages share a digest.
-/

namespace StandingQuery

/-! ## Bytes of digests -/

namespace Digest

theorem length_bigEndian (count n : Nat) : (bigEndian count n).length = count := by
  induction count with
  | zero => rfl
  | succ count ih => simp [bigEndian, ih]

/-- Numbers agree in one more digit. -/
theorem mod_pow_succ_eq {count m n : Nat} (h : m % 256 ^ count = n % 256 ^ count)
    (hdigit : UInt8.ofNat (m >>> (8 * count)) = UInt8.ofNat (n >>> (8 * count))) :
    m % 256 ^ (count + 1) = n % 256 ^ (count + 1) := by
  have hdigit : m / 256 ^ count % 256 = n / 256 ^ count % 256 := by
    simpa [Nat.shiftRight_eq_div_pow, Nat.pow_mul] using congrArg UInt8.toNat hdigit
  rw [Nat.pow_succ, Nat.mod_mul, Nat.mod_mul, h, hdigit]

theorem mod_eq_of_bigEndian_eq {count m n : Nat} (h : bigEndian count m = bigEndian count n) :
    m % 256 ^ count = n % 256 ^ count := by
  induction count with
  | zero => simp [Nat.mod_one]
  | succ count ih =>
    obtain ⟨hdigit, hrest⟩ := List.cons.inj h
    exact mod_pow_succ_eq (ih hrest) hdigit

theorem length_bytes (d : Digest) : d.bytes.length = 32 := length_bigEndian ..

theorem bytes_injective : Function.Injective bytes := by
  rintro ⟨a⟩ ⟨b⟩ h
  have hmod : a.toNat % 256 ^ 32 = b.toNat % 256 ^ 32 := mod_eq_of_bigEndian_eq h
  rw [Nat.mod_eq_of_lt (by simpa using a.isLt), Nat.mod_eq_of_lt (by simpa using b.isLt)] at hmod
  exact congrArg _ (BitVec.eq_of_toNat_eq hmod)

/-- As many digests as before can be cut off again. -/
theorem flatMap_bytes_append_inj {ds es : List Digest} (hlength : ds.length = es.length)
    {r r' : List UInt8} (h : ds.flatMap bytes ++ r = es.flatMap bytes ++ r') : ds = es ∧ r = r' := by
  induction ds generalizing es with
  | nil =>
    obtain rfl : es = [] := List.length_eq_zero_iff.1 hlength.symm
    exact ⟨rfl, h⟩
  | cons d ds ih =>
    cases es with
    | nil => simp at hlength
    | cons e es =>
      simp only [List.flatMap_cons, List.append_assoc] at h
      obtain ⟨hhead, htail⟩ := List.append_inj h ((length_bytes d).trans (length_bytes e).symm)
      obtain ⟨rfl, rfl⟩ := ih (Nat.succ.inj hlength) htail
      exact ⟨congrArg (· :: ds) (bytes_injective hhead), rfl⟩

end Digest

namespace Json

/-- The bytes of a message, one after the other. -/
def octets (message : ByteArray) : List UInt8 := message.data.toList

theorem octets_injective : Function.Injective octets := by
  rintro ⟨a⟩ ⟨b⟩ h
  exact congrArg _ (Array.toList_inj.1 h)

@[simp] theorem octets_append (a b : ByteArray) : octets (a ++ b) = octets a ++ octets b :=
  ByteArray.toList_data_append

@[simp] theorem octets_tagByte (n : UInt8) : octets (tagByte n) = [n] := rfl

@[simp] theorem octets_empty : octets .empty = [] := rfl

/-! ## Lengths and texts -/

/-- A length that eight bytes can hold. -/
def Fits (n : Nat) : Prop := n < 2 ^ 64

instance (n : Nat) : Decidable (Fits n) := inferInstanceAs (Decidable (n < 2 ^ 64))

theorem octets_lengthBytes (n : Nat) :
    octets (lengthBytes n) = (List.range 8).map fun i => UInt8.ofNat (n >>> (8 * i)) := by
  simp [octets, lengthBytes]

theorem mod_eq_of_littleEndian_eq {count m n : Nat}
    (h : ((List.range count).map fun i => UInt8.ofNat (m >>> (8 * i))) =
      (List.range count).map fun i => UInt8.ofNat (n >>> (8 * i))) :
    m % 256 ^ count = n % 256 ^ count := by
  induction count with
  | zero => simp [Nat.mod_one]
  | succ count ih =>
    simp only [List.range_succ, List.map_append, List.map_cons, List.map_nil] at h
    obtain ⟨hrest, hdigit⟩ := List.append_inj h (by simp)
    exact Digest.mod_pow_succ_eq (ih hrest) (List.cons.inj hdigit).1

theorem lengthBytes_append_inj {m n : Nat} (hm : Fits m) (hn : Fits n) {r r' : List UInt8}
    (h : octets (lengthBytes m) ++ r = octets (lengthBytes n) ++ r') : m = n ∧ r = r' := by
  rw [octets_lengthBytes, octets_lengthBytes] at h
  obtain ⟨hbytes, hrest⟩ := List.append_inj h (by simp)
  have hmod : m % 256 ^ 8 = n % 256 ^ 8 := mod_eq_of_littleEndian_eq hbytes
  rw [Nat.mod_eq_of_lt (by simpa [Fits] using hm), Nat.mod_eq_of_lt (by simpa [Fits] using hn)] at hmod
  exact ⟨hmod, hrest⟩

theorem textBytes_append_inj {s t : String} (hs : Fits s.utf8ByteSize) (ht : Fits t.utf8ByteSize)
    {r r' : List UInt8} (h : octets (textBytes s) ++ r = octets (textBytes t) ++ r') :
    s = t ∧ r = r' := by
  simp only [textBytes, octets_append, List.append_assoc] at h
  obtain ⟨hsize, htext⟩ := lengthBytes_append_inj hs ht h
  obtain ⟨hbytes, hrest⟩ := List.append_inj htext hsize
  exact ⟨String.toByteArray_inj.1 (octets_injective hbytes), hrest⟩

/-! ## Sorted digests -/

theorem octets_digestBytes (d : Digest) : octets (digestBytes d) = d.bytes := rfl

/-- Digests in increasing order. -/
def sortDigests (ds : List Digest) : List Digest := ds.mergeSort fun a b => (compare a b).isLE

theorem octets_sortedDigests (ds : List Digest) :
    octets (sortedDigests ds) = (sortDigests ds).flatMap Digest.bytes := by
  have hfold (ds : List Digest) (acc : ByteArray) :
      octets (ds.foldl (fun acc d => acc ++ digestBytes d) acc) = octets acc ++ ds.flatMap Digest.bytes := by
    induction ds generalizing acc with
    | nil => simp
    | cons d ds ih =>
      rw [List.foldl_cons, ih, octets_append, octets_digestBytes, List.flatMap_cons, List.append_assoc]
  exact hfold (sortDigests ds) .empty

theorem perm_sortDigests (ds : List Digest) : (sortDigests ds).Perm ds := List.mergeSort_perm ds _

theorem sortDigests_eq_iff {ds es : List Digest} : sortDigests ds = sortDigests es ↔ ds.Perm es := by
  constructor
  · intro h
    exact (perm_sortDigests ds).symm.trans (h ▸ perm_sortDigests es)
  · intro h
    have hsorted (ds : List Digest) : (sortDigests ds).Pairwise fun a b => (compare a b).isLE = true := by
      refine List.pairwise_mergeSort (fun a b c => Std.TransCmp.isLE_trans) (fun a b => ?_) ds
      have hswap : compare b a = (compare a b).swap := Std.OrientedCmp.eq_swap
      rw [hswap]
      cases compare a b <;> rfl
    refine List.Perm.eq_of_pairwise (fun a b _ _ hab hba => ?_) (hsorted ds) (hsorted es)
      ((perm_sortDigests ds).trans (h.trans (perm_sortDigests es).symm))
    exact Std.LawfulEqOrd.eq_of_compare (Std.OrientedCmp.isLE_antisymm hab hba)

/-! ## Values -/

namespace Value

/-- What is digested for a member of an object. -/
def entry (m : String × Value) : ByteArray := textBytes m.1 ++ m.2.message

theorem memberDigests_eq (ms : List (String × Value)) :
    memberDigests ms = ms.map fun m => Digest.ofMessage (entry m) := by
  induction ms with
  | nil => rfl
  | cons m ms ih => rw [memberDigests, ih, List.map_cons, entry]

theorem octets_messageItems (items : List Value) :
    octets (messageItems items) = items.flatMap fun v => octets v.message := by
  induction items with
  | nil => rfl
  | cons v items ih => rw [messageItems, octets_append, ih, List.flatMap_cons]

@[simp] theorem octets_null : octets (message .null) = [0] := rfl

@[simp] theorem octets_bool (b : Bool) : octets (message (.bool b)) = [1, if b then 1 else 0] := rfl

@[simp] theorem octets_number (n : Number) :
    octets (message (.number n)) = 2 :: octets (textBytes n.text) := by
  simp [message]

@[simp] theorem octets_string (s : String) : octets (message (.string s)) = 3 :: octets (textBytes s) := by
  simp [message]

@[simp] theorem octets_array (items : List Value) : octets (message (.array items)) =
    4 :: octets (lengthBytes items.length) ++ items.flatMap fun v => octets v.message := by
  simp [message, octets_messageItems]

@[simp] theorem octets_object (ms : List (String × Value)) : octets (message (.object ms)) =
    5 :: octets (lengthBytes ms.length) ++
      (sortDigests (ms.map fun m => Digest.ofMessage (entry m))).flatMap Digest.bytes := by
  simp [message, octets_sortedDigests, memberDigests_eq]

/-- One value can be turned into the other by putting the members of objects, at any depth, into
another order. Numbers count by their text. -/
inductive Reorders : Value → Value → Prop
  | refl (v : Value) : Reorders v v
  | trans {u v w : Value} (huv : Reorders u v) (hvw : Reorders v w) : Reorders u w
  | number {m n : Number} (h : m.text = n.text) : Reorders (.number m) (.number n)
  | item {v w : Value} (xs ys : List Value) (h : Reorders v w) :
    Reorders (.array (xs ++ v :: ys)) (.array (xs ++ w :: ys))
  | member {v w : Value} (ms ns : List (String × Value)) (key : String) (h : Reorders v w) :
    Reorders (.object (ms ++ (key, v) :: ns)) (.object (ms ++ (key, w) :: ns))
  | perm {ms ns : List (String × Value)} (h : ms.Perm ns) : Reorders (.object ms) (.object ns)

/-- The order of members does not show in a message. -/
theorem Reorders.message_eq {v w : Value} (h : Reorders v w) : v.message = w.message := by
  induction h with
  | refl => rfl
  | trans _ _ ihuv ihvw => exact ihuv.trans ihvw
  | number h => rw [message, message, h]
  | item xs ys _ ih =>
    apply octets_injective
    simp [ih]
  | member ms ns key _ ih =>
    apply octets_injective
    simp [entry, ih]
  | perm h =>
    apply octets_injective
    simp [h.length_eq, sortDigests_eq_iff.2 (h.map _)]

/-- Items are reordered one by one. -/
theorem reorders_array {xs ys : List Value} (h : List.Forall₂ Reorders xs ys) :
    Reorders (.array xs) (.array ys) := by
  have hafter (before : List Value) : Reorders (.array (before ++ xs)) (.array (before ++ ys)) := by
    induction h generalizing before with
    | nil => exact .refl _
    | @cons x y xs ys hxy _ ih =>
      refine (Reorders.item before xs hxy).trans ?_
      simpa using ih (before ++ [y])
  exact hafter []

/-- Members are reordered one by one. -/
theorem reorders_object {ms ns : List (String × Value)}
    (h : List.Forall₂ (fun m n => m.1 = n.1 ∧ Reorders m.2 n.2) ms ns) :
    Reorders (.object ms) (.object ns) := by
  have hafter (before : List (String × Value)) :
      Reorders (.object (before ++ ms)) (.object (before ++ ns)) := by
    induction h generalizing before with
    | nil => exact .refl _
    | @cons m n ms ns hmn _ ih =>
      obtain ⟨key, v⟩ := m
      obtain ⟨_, w⟩ := n
      obtain ⟨rfl, hvw⟩ := hmn
      refine (Reorders.member before ms key hvw).trans ?_
      simpa using ih (before ++ [(key, w)])
  exact hafter []

/-- The lengths that are written of the value itself fit. -/
def Short : Value → Prop
  | .number n => Fits n.text.utf8ByteSize
  | .string s => Fits s.utf8ByteSize
  | .array items => Fits items.length
  | .object ms => Fits ms.length ∧ ∀ m ∈ ms, Fits m.1.utf8ByteSize
  | _ => True

instance : DecidablePred Short
  | .null | .bool _ => inferInstanceAs (Decidable True)
  | .number n => inferInstanceAs (Decidable (Fits n.text.utf8ByteSize))
  | .string s => inferInstanceAs (Decidable (Fits s.utf8ByteSize))
  | .array items => inferInstanceAs (Decidable (Fits items.length))
  | .object ms => inferInstanceAs (Decidable (Fits ms.length ∧ ∀ m ∈ ms, Fits m.1.utf8ByteSize))

/-- What is digested for the members of the value itself. -/
def entries : Value → List ByteArray
  | .object ms => ms.map entry
  | _ => []

/-- All that is digested on the way to the digest of the value. -/
def digested (v : Value) : List ByteArray := v.message :: v.parts.flatMap entries

/-- No two different ones of the messages share a digest. -/
def Unequivocal (messages : List ByteArray) : Prop :=
  ∀ x ∈ messages, ∀ y ∈ messages, Digest.ofMessage x = Digest.ofMessage y → x = y

theorem unequivocal_of_nodup {messages : List ByteArray} (h : (messages.map Digest.ofMessage).Nodup) :
    Unequivocal messages := fun _ hx _ hy heq => List.inj_on_of_nodup_map h hx hy heq

theorem Unequivocal.mono {messages some : List ByteArray} (h : Unequivocal messages)
    (hsome : ∀ x ∈ some, x ∈ messages) : Unequivocal some :=
  fun x hx y hy => h x (hsome x hx) y (hsome y hy)

/-- Messages of the values can be read back. -/
structure Readable (v w : Value) : Prop where
  short : ∀ c ∈ v.parts ++ w.parts, c.Short
  unequivocal : Unequivocal ((v.parts ++ w.parts).flatMap entries)

theorem Readable.mono {v w v' w' : Value} (h : Readable v w) (hv : Occurs v' v) (hw : Occurs w' w) :
    Readable v' w' := by
  have hparts : ∀ c ∈ v'.parts ++ w'.parts, c ∈ v.parts ++ w.parts := by
    simp only [List.mem_append, ← occurs_iff_mem_parts]
    exact fun c => Or.imp (·.trans hv) (·.trans hw)
  refine ⟨fun c hc => h.short c (hparts c hc), h.unequivocal.mono fun x hx => ?_⟩
  obtain ⟨c, hc, hx⟩ := List.mem_flatMap.1 hx
  exact List.mem_flatMap.2 ⟨c, hparts c hc, hx⟩

theorem Readable.short_left {v w : Value} (h : Readable v w) : v.Short :=
  h.short v (List.mem_append_left _ (occurs_iff_mem_parts.1 (.here v)))

theorem Readable.short_right {v w : Value} (h : Readable v w) : w.Short :=
  h.short w (List.mem_append_right _ (occurs_iff_mem_parts.1 (.here w)))

theorem mem_entries_left {v : Value} {ms : List (String × Value)} {m : String × Value} (h : m ∈ ms) :
    entry m ∈ ((object ms).parts ++ v.parts).flatMap entries := by
  refine List.mem_flatMap.2 ⟨object ms, ?_, List.mem_map_of_mem h⟩
  exact List.mem_append_left _ (occurs_iff_mem_parts.1 (.here _))

theorem mem_entries_right {v : Value} {ms : List (String × Value)} {m : String × Value} (h : m ∈ ms) :
    entry m ∈ (v.parts ++ (object ms).parts).flatMap entries := by
  refine List.mem_flatMap.2 ⟨object ms, ?_, List.mem_map_of_mem h⟩
  exact List.mem_append_right _ (occurs_iff_mem_parts.1 (.here _))

/-- Messages one behind the other are those of items that can be reordered one by one, if this holds
of each message. -/
theorem forall₂_reorders_of_append {xs ys : List Value} (hlength : xs.length = ys.length)
    (hitem : ∀ x ∈ xs, ∀ y ∈ ys, ∀ r r' : List UInt8,
      octets x.message ++ r = octets y.message ++ r' → Reorders x y ∧ r = r')
    {r r' : List UInt8} (h : (xs.flatMap fun v => octets v.message) ++ r =
      (ys.flatMap fun v => octets v.message) ++ r') : List.Forall₂ Reorders xs ys ∧ r = r' := by
  induction xs generalizing ys with
  | nil =>
    obtain rfl : ys = [] := List.length_eq_zero_iff.1 hlength.symm
    exact ⟨.nil, h⟩
  | cons x xs ih =>
    cases ys with
    | nil => simp at hlength
    | cons y ys =>
      simp only [List.flatMap_cons, List.append_assoc] at h
      obtain ⟨hxy, htail⟩ := hitem x List.mem_cons_self y List.mem_cons_self _ _ h
      obtain ⟨hrest, hend⟩ := ih (Nat.succ.inj hlength)
        (fun x hx y hy => hitem x (List.mem_cons_of_mem _ hx) y (List.mem_cons_of_mem _ hy)) htail
      exact ⟨.cons hxy hrest, hend⟩

/-- Where the images are one permuted, the lists can be permuted to agree in each image. -/
theorem exists_perm_forall₂ {α β : Type} {f : α → β} {xs ys : List α} (h : (xs.map f).Perm (ys.map f)) :
    ∃ xs', xs.Perm xs' ∧ List.Forall₂ (fun x y => f x = f y) xs' ys := by
  have hcomp : Relation.Comp (List.Forall₂ fun x b => f x = b) List.Perm xs (ys.map f) :=
    ⟨xs.map f, List.forall₂_map_right_iff.2 (List.forall₂_same.2 fun _ _ => rfl), h⟩
  rw [List.forall₂_comp_perm_eq_perm_comp_forall₂] at hcomp
  obtain ⟨xs', hperm, hforall⟩ := hcomp
  exact ⟨xs', hperm, List.forall₂_map_right_iff.1 hforall⟩

/-- A message ends where its value ends. -/
theorem reorders_of_append {v w : Value} (h : Readable v w) {r r' : List UInt8}
    (heq : octets v.message ++ r = octets w.message ++ r') : Reorders v w ∧ r = r' := by
  induction v using Value.induction generalizing w r r' with
  | null =>
    cases w <;> simp at heq
    exact ⟨.refl _, heq⟩
  | bool b =>
    cases w with
    | bool c =>
      simp only [octets_bool, List.cons_append, List.nil_append, List.cons.injEq, true_and] at heq
      obtain rfl : b = c := by cases b <;> cases c <;> simp_all
      exact ⟨.refl _, heq.2⟩
    | _ => simp at heq
  | number m =>
    cases w with
    | number n =>
      simp only [octets_number, List.cons_append, List.cons.injEq, true_and] at heq
      obtain ⟨htext, hrest⟩ := textBytes_append_inj h.short_left h.short_right heq
      exact ⟨.number htext, hrest⟩
    | _ => simp at heq
  | string s =>
    cases w with
    | string t =>
      simp only [octets_string, List.cons_append, List.cons.injEq, true_and] at heq
      obtain ⟨rfl, hrest⟩ := textBytes_append_inj h.short_left h.short_right heq
      exact ⟨.refl _, hrest⟩
    | _ => simp at heq
  | array xs ih =>
    cases w with
    | array ys =>
      simp only [octets_array, List.cons_append, List.cons.injEq, true_and, List.append_assoc] at heq
      obtain ⟨hlength, hitems⟩ := lengthBytes_append_inj h.short_left h.short_right heq
      obtain ⟨hforall, hrest⟩ := forall₂_reorders_of_append hlength
        (fun x hx y hy _ _ => ih x hx (h.mono (.of_mem hx) (.of_mem hy))) hitems
      exact ⟨reorders_array hforall, hrest⟩
    | _ => simp at heq
  | object ms ih =>
    cases w with
    | object ns =>
      simp only [octets_object, List.cons_append, List.cons.injEq, true_and, List.append_assoc] at heq
      obtain ⟨hlength, hdigests⟩ := lengthBytes_append_inj h.short_left.1 h.short_right.1 heq
      obtain ⟨hsorted, hrest⟩ := Digest.flatMap_bytes_append_inj (by
        simp [(perm_sortDigests _).length_eq, hlength]) hdigests
      refine ⟨?_, hrest⟩
      obtain ⟨ms', hperm, hmembers⟩ := exists_perm_forall₂ (sortDigests_eq_iff.1 hsorted)
      refine (Reorders.perm hperm).trans (reorders_object ?_)
      obtain ⟨hlength, hzip⟩ := List.forall₂_iff_zip.1 hmembers
      refine List.forall₂_iff_zip.2 ⟨hlength, fun {m n} hmn => ?_⟩
      obtain ⟨hm, hn⟩ := List.of_mem_zip hmn
      have hm := hperm.mem_iff.2 hm
      -- The members have one digest, so it is of one and the same entry.
      have hentry : entry m = entry n := h.unequivocal _ (mem_entries_left hm) _ (mem_entries_right hn)
        (hzip hmn)
      have hocts := congrArg octets hentry
      simp only [entry, octets_append] at hocts
      obtain ⟨hkey, hvalue⟩ := textBytes_append_inj (h.short_left.2 m hm) (h.short_right.2 n hn) hocts
      have hvalue : octets m.2.message ++ [] = octets n.2.message ++ [] := congrArg (· ++ []) hvalue
      exact ⟨hkey, (ih m hm (h.mono (.member hm (.here _)) (.member hn (.here _))) hvalue).1⟩
    | _ => simp at heq

/-- Values have one digest exactly when they differ in the order of members only, at whatever depth,
as long as no two different messages on the way share a digest. Lengths are written in eight bytes, which
those of a value in memory fit. -/
theorem digest_eq_iff_reorders {v w : Value} (hshort : ∀ c ∈ v.parts ++ w.parts, c.Short)
    (hdigested : Unequivocal (v.digested ++ w.digested)) : v.digest = w.digest ↔ Reorders v w := by
  constructor
  · intro h
    have hmessage : v.message = w.message := hdigested _
      (List.mem_append_left _ List.mem_cons_self) _ (List.mem_append_right _ List.mem_cons_self) h
    have hreadable : Readable v w := by
      refine ⟨hshort, hdigested.mono fun x hx => ?_⟩
      rw [List.flatMap_append, List.mem_append] at hx
      exact List.mem_append.2 (hx.imp (List.mem_cons_of_mem _) (List.mem_cons_of_mem _))
    have hoctets : octets v.message ++ [] = octets w.message ++ [] := by rw [hmessage]
    exact (reorders_of_append hreadable hoctets).1
  · intro h
    exact congrArg Digest.ofMessage h.message_eq

/-- Members change places inside an array. -/
theorem digest_eq_iff_reorders_inside :
    let home : String × Value := ("home", .number (.whole 2))
    let away : String × Value := ("away", .number (.whole 1))
    let v : Value := .array [.object [home, away]]
    let w : Value := .array [.object [away, home]]
    (∀ c ∈ v.parts ++ w.parts, c.Short) ∧ Unequivocal (v.digested ++ w.digested) ∧
      v.digest = w.digest := by
  intro home away v w
  have hshort : ∀ c ∈ v.parts ++ w.parts, c.Short := by decide
  have hreorders : Reorders v w := .item [] [] (.perm (.swap _ _ _))
  -- The digests of the two members are in increasing order as they stand in the first value.
  have hsorted : sortDigests [.ofMessage (entry home), .ofMessage (entry away)] =
      [.ofMessage (entry home), .ofMessage (entry away)] :=
    List.mergeSort_of_pairwise (by decide +kernel)
  have hmessage : v.message = tagByte 4 ++ lengthBytes 1 ++ (tagByte 5 ++ lengthBytes 2 ++
      (digestBytes (.ofMessage (entry home)) ++ digestBytes (.ofMessage (entry away)))) := by
    apply octets_injective
    simp [v, hsorted, octets_digestBytes]
  have hthree : Unequivocal [v.message, entry home, entry away] := by
    rw [hmessage]
    exact unequivocal_of_nodup (by decide +kernel)
  have hv : v.digested = [v.message, entry home, entry away] := rfl
  have hw : w.digested = [w.message, entry away, entry home] := rfl
  have hdigested : Unequivocal (v.digested ++ w.digested) := by
    refine hthree.mono fun x hx => ?_
    rw [hv, hw, ← hreorders.message_eq] at hx
    simp only [List.cons_append, List.nil_append, List.mem_cons, List.not_mem_nil, or_false] at hx ⊢
    tauto
  exact ⟨hshort, hdigested, (digest_eq_iff_reorders hshort hdigested).2 hreorders⟩

end Value
end Json
end StandingQuery
