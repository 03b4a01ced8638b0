import StandingQuery.Proofs.Json.Fingerprint
import StandingQuery.Proofs.Query.Coverage

/-!
# Versions of footprints

A footprint is what was recorded in it, whatever the order. Its version is the digest of a message of
blocks, one for each entity that was read and one for each containment. A block does not tell how many
fields it has: they end where the next block begins, and a field may be written like the beginning of a
block. Nor does it tell a blank type prefix from none. Apart from these two, and from collisions of
digests, footprints with one version are equal.
-/

namespace StandingQuery

open Json (octets textBytes lengthBytes Fits octets_injective octets_append)
open Json.Value (Unequivocal)

namespace Footprint

/-! ## Recording -/

/-- What is recorded at once. -/
inductive Recording where
  | read (id : EntityId) (field : FieldPath)
  | containment (k : Containment)
deriving DecidableEq

def record (f : Footprint) : Recording → Footprint
  | .read id field => f.recordRead id field
  | .containment k => f.recordContainment k

/-- The footprint of a sequence of recordings. -/
def ofRecordings (rs : List Recording) : Footprint := rs.foldl record ∅

/-- No entity is listed without a field. -/
def Recorded (f : Footprint) : Prop :=
  ∀ id fields, f.reads.get? id = some fields → ∃ field, field ∈ fields

theorem Recorded.record {f : Footprint} (h : f.Recorded) (r : Recording) : (f.record r).Recorded := by
  cases r with
  | containment k => exact h
  | read id field =>
    intro j fields hj
    rw [Footprint.record, recordRead, addFields, SortedMap.get?_alter] at hj
    split at hj
    · obtain rfl := Option.some.inj hj
      exact ⟨field, SortedSet.mem_union.2 (.inr (SortedSet.mem_singleton.2 rfl))⟩
    · exact h j fields hj

theorem recorded_ofRecordings (rs : List Recording) : (ofRecordings rs).Recorded := by
  suffices h : ∀ f : Footprint, f.Recorded → (rs.foldl record f).Recorded from h ∅ (by
    intro id fields h
    exact absurd h (by simp [show (∅ : Footprint).reads = ∅ from rfl]))
  induction rs with
  | nil => exact fun f h => h
  | cons r rs ih => exact fun f h => ih _ (h.record r)

theorem reads_ofRecordings {rs : List Recording} {id : EntityId} {field : FieldPath} :
    (ofRecordings rs).Reads id field ↔ .read id field ∈ rs := by
  suffices h : ∀ f : Footprint, (rs.foldl record f).Reads id field ↔
      f.Reads id field ∨ .read id field ∈ rs from (h ∅).trans (or_iff_right (by
    rintro ⟨fields, hfields, -⟩
    exact absurd hfields (by simp [show (∅ : Footprint).reads = ∅ from rfl])))
  induction rs with
  | nil => simp
  | cons r rs ih =>
    intro f
    rw [List.foldl_cons, ih, List.mem_cons, ← or_assoc]
    refine or_congr_left ?_
    cases r with
    | read j p => rw [record, reads_recordRead, or_comm, Recording.read.injEq]
    | containment k => simp [record, recordContainment, Reads]

theorem mem_containments_ofRecordings {rs : List Recording} {k : Containment} :
    k ∈ (ofRecordings rs).containments ↔ .containment k ∈ rs := by
  suffices h : ∀ f : Footprint, k ∈ (rs.foldl record f).containments ↔
      k ∈ f.containments ∨ .containment k ∈ rs from
    (h ∅).trans (or_iff_right (SortedSet.not_mem_empty k))
  induction rs with
  | nil => simp
  | cons r rs ih =>
    intro f
    rw [List.foldl_cons, ih, List.mem_cons, ← or_assoc]
    refine or_congr_left ?_
    cases r with
    | read id field => simp [record, recordRead, addFields]
    | containment n =>
      rw [record, recordContainment, SortedSet.mem_insert, or_comm, Recording.containment.injEq]

/-- The footprints hold the same reads and the same containments. -/
structure SameRecords (f g : Footprint) : Prop where
  reads : ∀ id field, f.Reads id field ↔ g.Reads id field
  containments : ∀ k, k ∈ f.containments ↔ k ∈ g.containments

theorem SameRecords.symm {f g : Footprint} (h : f.SameRecords g) : g.SameRecords f :=
  ⟨fun id field => (h.reads id field).symm, fun k => (h.containments k).symm⟩

/-- Neither order nor repetition of recordings matters. -/
theorem sameRecords_of_subset {rs rs' : List Recording} (h : rs ⊆ rs') (h' : rs' ⊆ rs) :
    (ofRecordings rs).SameRecords (ofRecordings rs') where
  reads id field := by
    rw [reads_ofRecordings, reads_ofRecordings]
    exact ⟨fun hr => h hr, fun hr => h' hr⟩
  containments k := by
    rw [mem_containments_ofRecordings, mem_containments_ofRecordings]
    exact ⟨fun hr => h hr, fun hr => h' hr⟩

theorem SameRecords.get?_reads {f g : Footprint} (h : f.SameRecords g) (hf : f.Recorded) {id : EntityId}
    {fields : SortedSet FieldPath} (hid : f.reads.get? id = some fields) :
    g.reads.get? id = some fields := by
  obtain ⟨field, hfield⟩ := hf id fields hid
  obtain ⟨fields', hid', -⟩ := (h.reads id field).1 ⟨fields, hid, hfield⟩
  have hsame : fields = fields' := SortedSet.eq_of_mem_iff fun p => by
    simpa [Reads, hid, hid'] using h.reads id p
  rw [hid', hsame]

theorem SameRecords.eq {f g : Footprint} (h : f.SameRecords g) (hf : f.Recorded) (hg : g.Recorded) :
    f = g := by
  have hreads : f.reads = g.reads := SortedMap.ext fun id => Option.ext fun fields =>
    ⟨h.get?_reads hf, h.symm.get?_reads hg⟩
  have hcontainments : f.containments = g.containments := SortedSet.eq_of_mem_iff h.containments
  cases f
  cases g
  simp_all

/-! ## Blocks of a message -/

/-- What is written for an entity that was read, or for a containment. -/
inductive Block where
  | read (id : String) (fields : List String)
  | containment (root traversal typePrefix : String) (fields : List String)
deriving DecidableEq

namespace Block

def tag : Block → UInt8
  | read .. => 73
  | containment .. => 67

/-- The id comes first. -/
def id : Block → String
  | read id _ => id
  | containment root .. => root

/-- The texts that every block with the tag has. -/
def head : Block → List String
  | read id _ => [id]
  | containment root traversal typePrefix _ => [root, traversal, typePrefix]

def fields : Block → List String
  | read _ fields | containment _ _ _ fields => fields

def bytes (b : Block) : List UInt8 :=
  b.tag :: (b.head.flatMap (octets ∘ textBytes) ++ b.fields.flatMap (octets ∘ textBytes))

/-- How a block begins: its tag, and the length of its id. -/
def start (b : Block) : List UInt8 := b.tag :: octets (lengthBytes b.id.utf8ByteSize)

/-- A field of the block is written as the other block begins. -/
def Mimics (b c : Block) : Prop := ∃ t ∈ b.fields, c.start <+: octets (textBytes t)

instance (b c : Block) : Decidable (b.Mimics c) :=
  inferInstanceAs (Decidable (∃ t ∈ b.fields, c.start <+: octets (textBytes t)))

/-- All texts have lengths that eight bytes can hold. -/
def Short (b : Block) : Prop := ∀ t ∈ b.head ++ b.fields, Fits t.utf8ByteSize

instance (b : Block) : Decidable b.Short :=
  inferInstanceAs (Decidable (∀ t ∈ b.head ++ b.fields, Fits t.utf8ByteSize))

theorem tag_ne_zero (b : Block) : b.tag ≠ 0 := by cases b <;> simp [tag]

theorem length_head {b c : Block} (h : b.tag = c.tag) : b.head.length = c.head.length := by
  cases b <;> cases c <;> simp_all [tag, head]

theorem ext {b c : Block} (htag : b.tag = c.tag) (hhead : b.head = c.head) (hfields : b.fields = c.fields) :
    b = c := by
  cases b <;> cases c <;> simp_all [tag, head, fields]

theorem length_textBytes (t : String) : (octets (textBytes t)).length = 8 + t.utf8ByteSize := by
  rw [textBytes, octets_append, List.length_append, Json.octets_lengthBytes, List.length_map,
    List.length_range]
  rfl

theorem head_eq (b : Block) : b.head = b.id :: b.head.tail := by cases b <;> rfl

theorem start_prefix_bytes (b : Block) : b.start <+: b.bytes := by
  have hid : octets (lengthBytes b.id.utf8ByteSize) <+: octets (textBytes b.id) := by
    rw [textBytes, octets_append]
    exact List.prefix_append _ _
  rw [start, bytes, List.prefix_cons_inj, b.head_eq, List.flatMap_cons, List.append_assoc]
  exact hid.trans (List.prefix_append _ _)

/-- Where a block begins no field is read, unless it is written alike. -/
theorem not_field {bs : List Block} {t : String} {r : List UInt8}
    (hstart : ∀ b ∈ bs, ¬ b.start <+: octets (textBytes t)) :
    bs.flatMap bytes ≠ octets (textBytes t) ++ r := by
  intro h
  cases bs with
  | nil =>
    have hlength := congrArg List.length h
    rw [List.length_append, length_textBytes, List.flatMap_nil, List.length_nil] at hlength
    omega
  | cons b bs =>
    by_cases ht : t = ""
    -- The length of an empty text begins with zero, which is no tag.
    · subst ht
      exact b.tag_ne_zero (List.cons.inj h).1
    · refine hstart b List.mem_cons_self ?_
      have hpos : t.utf8ByteSize ≠ 0 := fun hzero => ht (String.utf8ByteSize_eq_zero_iff.1 hzero)
      have hwhole : b.start <+: (b :: bs).flatMap bytes :=
        b.start_prefix_bytes.trans (List.prefix_append _ _)
      refine List.prefix_of_prefix_length_le hwhole ?_ ?_
      · rw [h]
        exact List.prefix_append _ _
      · rw [length_textBytes, start, List.length_cons, Json.octets_lengthBytes, List.length_map,
          List.length_range]
        omega

/-- As many texts as before can be cut off again. -/
theorem texts_append_inj {ss ts : List String} (hlength : ss.length = ts.length)
    (hss : ∀ s ∈ ss, Fits s.utf8ByteSize) (hts : ∀ t ∈ ts, Fits t.utf8ByteSize) {r r' : List UInt8}
    (h : ss.flatMap (octets ∘ textBytes) ++ r = ts.flatMap (octets ∘ textBytes) ++ r') :
    ss = ts ∧ r = r' := by
  induction ss generalizing ts with
  | nil =>
    obtain rfl : ts = [] := List.length_eq_zero_iff.1 hlength.symm
    exact ⟨rfl, h⟩
  | cons s ss ih =>
    cases ts with
    | nil => simp at hlength
    | cons t ts =>
      simp only [List.flatMap_cons, List.append_assoc, Function.comp_apply] at h
      rw [List.forall_mem_cons] at hss hts
      obtain ⟨rfl, hrest⟩ := Json.textBytes_append_inj hss.1 hts.1 h
      obtain ⟨rfl, hend⟩ := ih (Nat.succ.inj hlength) hss.2 hts.2 hrest
      exact ⟨rfl, hend⟩

/-- Fields end where the blocks behind them begin. -/
theorem fields_append_inj {ss ts : List String} {bs cs : List Block}
    (hss : ∀ s ∈ ss, Fits s.utf8ByteSize) (hts : ∀ t ∈ ts, Fits t.utf8ByteSize)
    (hcs : ∀ s ∈ ss, ∀ c ∈ cs, ¬ c.start <+: octets (textBytes s))
    (hbs : ∀ t ∈ ts, ∀ b ∈ bs, ¬ b.start <+: octets (textBytes t))
    (h : ss.flatMap (octets ∘ textBytes) ++ bs.flatMap bytes =
      ts.flatMap (octets ∘ textBytes) ++ cs.flatMap bytes) :
    ss = ts ∧ bs.flatMap bytes = cs.flatMap bytes := by
  induction ss generalizing ts with
  | nil =>
    cases ts with
    | nil => exact ⟨rfl, h⟩
    | cons t ts =>
      simp only [List.flatMap_cons, List.append_assoc, Function.comp_apply] at h
      exact absurd h (not_field (hbs t List.mem_cons_self))
  | cons s ss ih =>
    rw [List.forall_mem_cons] at hss hcs
    cases ts with
    | nil =>
      simp only [List.flatMap_cons, List.append_assoc, Function.comp_apply] at h
      exact absurd h.symm (not_field hcs.1)
    | cons t ts =>
      simp only [List.flatMap_cons, List.append_assoc, Function.comp_apply] at h
      rw [List.forall_mem_cons] at hts hbs
      obtain ⟨rfl, hrest⟩ := Json.textBytes_append_inj hss.1 hts.1 h
      obtain ⟨rfl, hend⟩ := ih hss.2 hts.2 hcs.2 hbs.2 hrest
      exact ⟨rfl, hend⟩

/-- Unless a field is written as a block begins, blocks can be read back from their bytes. -/
theorem eq_of_bytes {bs cs : List Block} (hbs : ∀ b ∈ bs, b.Short) (hcs : ∀ c ∈ cs, c.Short)
    (hmimics : ∀ b ∈ bs, ∀ c ∈ cs, ¬ b.Mimics c ∧ ¬ c.Mimics b)
    (h : bs.flatMap bytes = cs.flatMap bytes) : bs = cs := by
  induction bs generalizing cs with
  | nil =>
    cases cs with
    | nil => rfl
    | cons c cs => exact absurd h (List.cons_ne_nil _ _).symm
  | cons b bs ih =>
    cases cs with
    | nil => exact absurd h (List.cons_ne_nil _ _)
    | cons c cs =>
      rw [List.flatMap_cons, List.flatMap_cons, bytes, bytes, List.cons_append, List.cons_append,
        List.append_assoc, List.append_assoc] at h
      obtain ⟨htag, htexts⟩ := List.cons.inj h
      rw [List.forall_mem_cons] at hbs hcs
      obtain ⟨hhead, hrest⟩ := texts_append_inj (length_head htag)
        (fun t ht => hbs.1 t (List.mem_append_left _ ht)) (fun t ht => hcs.1 t (List.mem_append_left _ ht))
        htexts
      obtain ⟨hfields, hblocks⟩ := fields_append_inj
        (fun t ht => hbs.1 t (List.mem_append_right _ ht))
        (fun t ht => hcs.1 t (List.mem_append_right _ ht))
        (fun t ht d hd hstart =>
          (hmimics b List.mem_cons_self d (List.mem_cons_of_mem _ hd)).1 ⟨t, ht, hstart⟩)
        (fun t ht d hd hstart =>
          (hmimics d (List.mem_cons_of_mem _ hd) c List.mem_cons_self).2 ⟨t, ht, hstart⟩)
        hrest
      obtain rfl := ext htag hhead hfields
      refine congrArg (b :: ·) (ih hbs.2 hcs.2 (fun d hd e he => ?_) hblocks)
      exact hmimics d (List.mem_cons_of_mem _ hd) e (List.mem_cons_of_mem _ he)

end Block

def readBlock (e : EntityId × SortedSet FieldPath) : Block := .read e.1.text (e.2.items.map (·.text))

def containmentBlock (k : Containment) : Block :=
  .containment k.root.text k.traversal.name (k.typePrefix.getD "") (k.fields.items.map (·.text))

/-- The blocks of the message of a footprint. -/
def blocks (f : Footprint) : List Block :=
  f.reads.entries.map readBlock ++ f.containments.items.map containmentBlock

theorem octets_foldl {α : Type} (write : α → ByteArray) (as : List α) (acc : ByteArray) :
    octets (as.foldl (fun acc a => acc ++ write a) acc) = octets acc ++ as.flatMap (octets ∘ write) := by
  induction as generalizing acc with
  | nil => simp
  | cons a as ih =>
    rw [List.foldl_cons, ih, octets_append, List.flatMap_cons, List.append_assoc, Function.comp_apply]

theorem octets_message (f : Footprint) : octets f.message = f.blocks.flatMap Block.bytes := by
  have hread (e : EntityId × SortedSet FieldPath) :
      octets (readMessage e.1 e.2) = (readBlock e).bytes := by
    rw [readMessage, fieldsMessage, octets_append, octets_append, octets_foldl]
    simp [readBlock, Block.bytes, Block.tag, Block.head, Block.fields, List.flatMap_map, octets]
    rfl
  have hcontainment (k : Containment) : octets (containmentMessage k) = (containmentBlock k).bytes := by
    rw [containmentMessage, fieldsMessage, octets_append, octets_append, octets_append, octets_append,
      octets_foldl]
    simp [containmentBlock, Block.bytes, Block.tag, Block.head, Block.fields, List.flatMap_map, octets]
    rfl
  rw [message, octets_foldl, octets_foldl, blocks, List.flatMap_append, List.flatMap_map, List.flatMap_map]
  simp only [Json.octets_empty, List.nil_append]
  congr 1
  · exact List.flatMap_congr fun e _ => hread e
  · exact List.flatMap_congr fun k _ => hcontainment k

/-! ## Versions -/

theorem readBlock_injective : Function.Injective readBlock := by
  rintro ⟨⟨a⟩, s⟩ ⟨⟨b⟩, t⟩ h
  obtain ⟨rfl, hfields⟩ := Block.read.inj h
  have hitems : s.items = t.items :=
    List.map_injective_iff.2 (fun p q hpq => congrArg FieldPath.mk hpq) hfields
  rw [SortedSet.ext hitems]

/-- A block shows all of a containment, but a blank type prefix looks like none. -/
theorem eq_of_containmentBlock {k n : Containment} (h : containmentBlock k = containmentBlock n)
    (hprefixes : k.typePrefix.getD "" = n.typePrefix.getD "" → k.typePrefix = n.typePrefix) : k = n := by
  obtain ⟨⟨a⟩, t, p, s⟩ := k
  obtain ⟨⟨b⟩, u, q, s'⟩ := n
  obtain ⟨rfl, htraversal, hblank, hfields⟩ := Block.containment.inj h
  have hsame : t = u := Traversal.name_injective htraversal
  have hitems : s.items = s'.items :=
    List.map_injective_iff.2 (fun p q hpq => congrArg FieldPath.mk hpq) hfields
  obtain rfl : p = q := hprefixes hblank
  rw [hsame, SortedSet.ext hitems]

theorem eq_of_map_eq {α β : Type} {f : α → β} {as bs : List α}
    (hf : ∀ a ∈ as, ∀ b ∈ bs, f a = f b → a = b) (h : as.map f = bs.map f) : as = bs := by
  induction as generalizing bs with
  | nil => exact (List.map_eq_nil_iff.1 h.symm).symm
  | cons a as ih =>
    cases bs with
    | nil => simp at h
    | cons b bs =>
      obtain ⟨hhead, htail⟩ := List.cons.inj h
      obtain rfl := hf a List.mem_cons_self b List.mem_cons_self hhead
      refine congrArg (a :: ·) (ih (fun c hc d hd => ?_) htail)
      exact hf c (List.mem_cons_of_mem _ hc) d (List.mem_cons_of_mem _ hd)

/-- What the messages of two footprints need to be read back: texts are of lengths that are written in
full, no field of the one is written as a block of the other begins, and a type prefix of the one is not
blank where the other has none. -/
structure Distinguishable (f g : Footprint) : Prop where
  short : ∀ b ∈ f.blocks ++ g.blocks, b.Short
  mimics : ∀ b ∈ f.blocks, ∀ c ∈ g.blocks, ¬ b.Mimics c ∧ ¬ c.Mimics b
  prefixes : ∀ k ∈ f.containments, ∀ n ∈ g.containments,
    k.typePrefix.getD "" = n.typePrefix.getD "" → k.typePrefix = n.typePrefix

theorem Distinguishable.eq_of_message {f g : Footprint} (h : f.Distinguishable g)
    (hmessage : f.message = g.message) : f = g := by
  have hbytes := congrArg octets hmessage
  rw [octets_message, octets_message] at hbytes
  have hblocks : f.blocks = g.blocks := Block.eq_of_bytes
    (fun b hb => h.short b (List.mem_append_left _ hb))
    (fun b hb => h.short b (List.mem_append_right _ hb)) h.mimics hbytes
  -- The tags tell the blocks of reads from those of containments.
  have hreads (f : Footprint) :
      f.blocks.filter (·.tag == 73) = f.reads.entries.map readBlock := by
    simp [blocks, List.filter_map, Function.comp_def, readBlock, containmentBlock, Block.tag]
  have hcontainments (f : Footprint) :
      f.blocks.filter (·.tag != 73) = f.containments.items.map containmentBlock := by
    simp [blocks, List.filter_map, Function.comp_def, readBlock, containmentBlock, Block.tag]
  have hentries : f.reads.entries = g.reads.entries := by
    refine List.map_injective_iff.2 readBlock_injective ?_
    rw [← hreads, ← hreads, hblocks]
  have hitems : f.containments.items = g.containments.items := by
    refine eq_of_map_eq (fun k hk n hn hkn => eq_of_containmentBlock hkn (h.prefixes k hk n hn)) ?_
    rw [← hcontainments, ← hcontainments, hblocks]
  obtain ⟨⟨_, _⟩, ⟨_, _⟩⟩ := f
  obtain ⟨⟨_, _⟩, ⟨_, _⟩⟩ := g
  simp_all

/-- Recorded in any order and any number of times, a footprint holds what was recorded. Footprints that
hold the same have one version. Distinguishable footprints of one version are equal, unless two different
messages share a digest. -/
theorem version_ofRecordings (rs rs' : List Recording) :
    (∀ id field, (ofRecordings rs).Reads id field ↔ .read id field ∈ rs) ∧
      (∀ k, k ∈ (ofRecordings rs).containments ↔ .containment k ∈ rs) ∧
      ((ofRecordings rs).SameRecords (ofRecordings rs') →
        (ofRecordings rs).version = (ofRecordings rs').version) ∧
      ((ofRecordings rs).Distinguishable (ofRecordings rs') →
        Unequivocal [(ofRecordings rs).message, (ofRecordings rs').message] →
        (ofRecordings rs).version = (ofRecordings rs').version → ofRecordings rs = ofRecordings rs') := by
  refine ⟨fun _ _ => reads_ofRecordings, fun _ => mem_containments_ofRecordings, fun h => ?_,
    fun h hdigest hversion => ?_⟩
  · rw [h.eq (recorded_ofRecordings rs) (recorded_ofRecordings rs')]
  · exact h.eq_of_message (hdigest _ (by simp) _ (by simp) hversion)

/-- Two orders of recording, with a field whose length is written like a tag. -/
theorem version_ofRecordings_reordered :
    let long : FieldPath := ⟨String.ofList (List.replicate 73 'a')⟩
    let k : Containment := ⟨⟨"ro1"⟩, .descendants, some "ma", .ofList [.parents, long]⟩
    let rs : List Recording := [.read ⟨"ma1"⟩ long, .containment k, .read ⟨"ma1"⟩ ⟨""⟩, .read ⟨""⟩ long]
    let rs' : List Recording := [.read ⟨""⟩ long, .read ⟨"ma1"⟩ ⟨""⟩, .read ⟨"ma1"⟩ long, .containment k,
      .read ⟨""⟩ long]
    (ofRecordings rs).version = (ofRecordings rs').version ∧ ofRecordings rs = ofRecordings rs' := by
  intro long k rs rs'
  obtain ⟨-, hcontainments, hsame, heq⟩ := version_ofRecordings rs rs'
  have hrecorded : (ofRecordings rs).SameRecords (ofRecordings rs') :=
    sameRecords_of_subset (by decide +kernel) (by decide +kernel)
  have hdistinguishable : (ofRecordings rs).Distinguishable (ofRecordings rs') := by
    refine ⟨by decide +kernel, by decide +kernel, fun n hn m hm _ => ?_⟩
    rw [hcontainments] at hn
    rw [mem_containments_ofRecordings] at hm
    simp only [rs, rs', List.mem_cons, Recording.containment.injEq, reduceCtorEq, List.not_mem_nil,
      or_false, false_or] at hn hm
    rw [hn, hm]
  have hmessage : (ofRecordings rs).message = (ofRecordings rs').message := by
    rw [hrecorded.eq (recorded_ofRecordings rs) (recorded_ofRecordings rs')]
  refine ⟨hsame hrecorded, heq hdistinguishable (fun x hx y hy _ => ?_) (hsame hrecorded)⟩
  simp only [hmessage, List.mem_cons, List.not_mem_nil, or_false, or_self] at hx hy
  rw [hx, hy]

/-- A blank type prefix is written like none. -/
theorem version_eq_of_blank :
    let k : Containment := ⟨⟨"ro1"⟩, .children, none, .ofList [.parents]⟩
    let f := ofRecordings [.containment k]
    let g := ofRecordings [.containment { k with typePrefix := some "" }]
    f ≠ g ∧ f.message = g.message ∧ f.version = g.version ∧ Unequivocal [f.message, g.message] := by
  intro k f g
  have hmessage : f.message = g.message := by decide +kernel
  refine ⟨by decide +kernel, hmessage, congrArg Digest.ofMessage hmessage, fun x hx y hy _ => ?_⟩
  simp only [hmessage, List.mem_cons, List.not_mem_nil, or_false, or_self] at hx hy
  rw [hx, hy]

/-- A containment in an empty id is written like one more field of the entity before it. -/
theorem version_eq_of_mimic :
    let zeros (n : Nat) : List Char := List.replicate n '\x00'
    let name : List Char := List.replicate 38 'a'
    let mimic : FieldPath := ⟨String.ofList (zeros 1 ++ '\x04' :: zeros 7 ++ "node".toList ++ zeros 8 ++
      '\x26' :: zeros 7 ++ name)⟩
    let f := ofRecordings [.read ⟨"ma1"⟩ ⟨""⟩,
      .containment ⟨⟨""⟩, .node, none, .ofList [⟨String.ofList name⟩]⟩]
    let g := ofRecordings [.read ⟨"ma1"⟩ ⟨""⟩, .read ⟨"ma1"⟩ mimic]
    f ≠ g ∧ f.message = g.message ∧ f.version = g.version := by
  intro zeros name mimic f g
  have hmessage : f.message = g.message := by
    apply octets_injective
    rw [octets_message, octets_message]
    decide +kernel
  exact ⟨by decide +kernel, hmessage, congrArg Digest.ofMessage hmessage⟩

end Footprint
end StandingQuery
