import Mathlib.Data.List.Induction
import StandingQuery.Proofs.Feed.History

/-!
# The order of what a feed tells

A gap begins when a connection is lost or cannot be made, and ends when the reconnect is answered. Each is
told once, and what a feed takes and tells of events stays outside of them.

## Main result

* `Feed.Past.protocol` — every history of a feed keeps to the protocol.
-/

namespace StandingQuery.Feed

/-- What is told about the connection and not about events. -/
def Entry.gapMessage? : Entry → Option FeedMessage
  | .told (.batch _) => none
  | .told m => some m
  | _ => none

/-- How often the gap was told that lasts after this, given how often it was before. -/
def Entry.gap (gap : Option Nat) : Entry → Option Nat
  | .refused | .closed | .silent _ _ => some (gap.getD 0)
  | .told .disconnected => gap.map (· + 1)
  | .answered _ true => none
  | _ => gap

def gapMessages (hist : List Entry) : List FeedMessage := hist.filterMap (·.gapMessage?)

/-- How often the gap was told that the feed is in, if it is in one. -/
def gap (hist : List Entry) : Option Nat := hist.foldl (fun gap x => x.gap gap) none

/-- After each gap that was told, the next reconnect was told and answered. -/
def Answered (hist : List Entry) : Prop :=
  ∀ as bs, hist = as ++ .told .disconnected :: bs → ∃ cs h ds,
    bs = cs ++ .told (.reconnected h) :: ds ∧ gapMessages cs = [] ∧ .answered h true ∈ ds

/-- The stream was opened as the last one. -/
def Newest (st : StreamId) (hist : List Entry) : Prop :=
  ∃ as bs, hist = as ++ .opened st :: bs ∧ ∀ other, .opened other ∉ bs

/-- The hub may be gone, or has let a reconnect go. -/
def Deserted (hist : List Entry) : Prop :=
  .deserted ∈ hist ∨ ∃ h, .answered h false ∈ hist

/-- If the feed is in a gap, it was told, unless nobody may hear it. -/
def Resolved (hist : List Entry) : Prop := ∀ n, gap hist = some n → n = 1 ∨ n = 0 ∧ Deserted hist

/-- What holds of every history of a feed. -/
structure Protocol (hist : List Entry) : Prop where
  /-- Gaps and reconnects are told in turn, a gap first. -/
  alternate : ∀ i m, (gapMessages hist)[i]? = some m → (m = .disconnected ↔ i % 2 = 0)
  /-- No batch is told between the telling of a gap and the answer to the reconnect after it. -/
  batch : ∀ xs es ys, hist = xs ++ .told (.batch es) :: ys → Answered xs
  /-- Nor is any event taken. -/
  took : ∀ xs now st e ys, hist = xs ++ .took now st e :: ys → Answered xs ∧ Newest st xs
  /-- What is told is a gap that was not told before. -/
  told : ∀ xs ys, hist = xs ++ .told .disconnected :: ys → gap xs = some 0
  /-- A gap that ends was told. -/
  ended : ∀ xs h ys, hist = xs ++ .answered h true :: ys → gap xs = some 1
  /-- So was a gap that lasts, unless nobody may hear it. -/
  lasting : Resolved hist

/-! ## Histories with one more entry -/

section Concat

variable {hist : List Entry} {x : Entry} {n : Option Nat} {st : StreamId}

@[simp] theorem gapMessages_nil : gapMessages [] = [] := rfl

@[simp] theorem gapMessages_append (xs ys : List Entry) :
    gapMessages (xs ++ ys) = gapMessages xs ++ gapMessages ys := List.filterMap_append

@[simp] theorem gapMessages_cons (xs : List Entry) (x : Entry) :
    gapMessages (x :: xs) = x.gapMessage?.toList ++ gapMessages xs := by
  cases h : x.gapMessage? <;> simp [gapMessages, h]

@[simp] theorem gap_concat (hist : List Entry) (x : Entry) :
    gap (hist ++ [x]) = x.gap (gap hist) := by
  simp [gap]

theorem Answered.concat (h : Answered hist) (hx : x ≠ .told .disconnected) :
    Answered (hist ++ [x]) := by
  intro as bs heq
  rcases append_cons_eq_append_cons List.not_mem_nil heq with ⟨-, rfl, -⟩ | ⟨zs, hzs, rfl⟩
  · exact absurd rfl hx
  · obtain ⟨cs, hs, ds, rfl, hcs, hds⟩ := h as zs hzs
    exact ⟨cs, hs, ds ++ [x], by simp, hcs, List.mem_append_left _ hds⟩

theorem newest_opened (st : StreamId) (hist : List Entry) : Newest st (hist ++ [.opened st]) :=
  ⟨hist, [], rfl, by simp⟩

theorem Newest.concat (h : Newest st hist) (hx : ∀ other, x ≠ .opened other) :
    Newest st (hist ++ [x]) := by
  obtain ⟨as, bs, rfl, hbs⟩ := h
  refine ⟨as, bs ++ [x], by simp, fun other hmem => ?_⟩
  rcases List.mem_append.1 hmem with hmem | hmem
  · exact hbs other hmem
  · exact hx other (List.mem_singleton.1 hmem).symm

theorem Deserted.append (h : Deserted hist) (news : List Entry) : Deserted (hist ++ news) := by
  rcases h with h | ⟨hs, h⟩
  · exact .inl (List.mem_append_left _ h)
  · exact .inr ⟨hs, List.mem_append_left _ h⟩

end Concat

/-! ## Where the protocol stands -/

/-- All gaps that were told are over; `n` tells of the one that may have begun. -/
structure Balanced (n : Option Nat) (hist : List Entry) : Prop where
  answered : Answered hist
  even : (gapMessages hist).length % 2 = 0
  gap : gap hist = n

/-- A gap was told, and no reconnect since. -/
structure Out (hist : List Entry) : Prop where
  told : ∃ as bs, hist = as ++ .told .disconnected :: bs ∧ Answered as ∧ gapMessages bs = []
  odd : (gapMessages hist).length % 2 = 1
  gap : gap hist = some 1

variable {hist : List Entry} {x : Entry} {n : Option Nat} {st : StreamId}

theorem balanced_of_deserted (h : ∀ x ∈ hist, x = .deserted) : Balanced none hist := by
  induction hist using List.reverseRecOn with
  | nil => exact ⟨fun as bs heq => by simp at heq, rfl, rfl⟩
  | append_singleton hist x ih =>
    obtain ⟨hanswered, heven, hgap⟩ := ih fun y hy => h y (List.mem_append_left _ hy)
    obtain rfl := h x (by simp)
    exact ⟨hanswered.concat (by simp), by simpa [Entry.gapMessage?] using heven,
      by simpa [Entry.gap] using hgap⟩

theorem Balanced.concat (h : Balanced n hist) (hx : x.gapMessage? = none) {m : Option Nat}
    (hgap : x.gap n = m) : Balanced m (hist ++ [x]) := by
  refine ⟨h.answered.concat ?_, by simpa [hx] using h.even, by rw [gap_concat, h.gap, hgap]⟩
  rintro rfl
  simp [Entry.gapMessage?] at hx

theorem Balanced.out (h : Balanced (some 0) hist) : Out (hist ++ [.told .disconnected]) := by
  refine ⟨⟨hist, [], rfl, h.answered, rfl⟩, ?_, ?_⟩
  · have := h.even
    simp [Entry.gapMessage?]
    omega
  · rw [gap_concat, h.gap]
    rfl

theorem Out.concat (h : Out hist) (hx : x.gapMessage? = none) (hgap : x.gap (some 1) = some 1) :
    Out (hist ++ [x]) := by
  obtain ⟨as, bs, rfl, has, hbs⟩ := h.told
  refine ⟨⟨as, bs ++ [x], by simp, has, by simp [hbs, hx]⟩, ?_, ?_⟩
  · simpa [hx] using h.odd
  · rw [gap_concat, h.gap, hgap]

theorem disconnected_not_mem {xs : List Entry} (h : gapMessages xs = []) :
    .told .disconnected ∉ xs := by
  intro hmem
  have := List.filterMap_eq_nil_iff.1 h _ hmem
  simp [Entry.gapMessage?] at this

/-- The answer to the reconnect makes up for the gap. -/
theorem Out.answer (h : Out hist) (hs : Handshake) {ds : List Entry} (hds : gapMessages ds = []) :
    Balanced none (hist ++ .told (.reconnected hs) :: ds ++ [.answered hs true]) := by
  obtain ⟨as, bs, rfl, has, hbs⟩ := h.told
  refine ⟨?_, ?_, ?_⟩
  · have hquiet : .told .disconnected ∉ bs ++ .told (.reconnected hs) :: ds ++ [.answered hs true] := by
      simp [disconnected_not_mem hbs, disconnected_not_mem hds]
    intro xs ys heq
    rw [List.append_assoc, List.append_assoc, List.cons_append, ← List.append_assoc bs] at heq
    rcases append_cons_eq_append_cons hquiet heq with ⟨-, -, rfl⟩ | ⟨zs, hzs, rfl⟩
    · exact ⟨bs, hs, ds ++ [.answered hs true], by simp, hbs, by simp⟩
    · obtain ⟨cs, h', es, rfl, hcs, hes⟩ := has xs zs hzs
      exact ⟨cs, h', _, by rw [List.append_assoc, List.cons_append], hcs, List.mem_append_left _ hes⟩
  · have := h.odd
    simp [Entry.gapMessage?, hds] at this ⊢
    omega
  · rw [gap_concat]
    rfl

/-! ## Runs -/

/-- What may come after the history. -/
def InTurn (hist : List Entry) : Entry → Prop
  | .took _ st _ => Answered hist ∧ Newest st hist
  | .told (.batch _) => Answered hist
  | .told .disconnected => gap hist = some 0 ∧ (gapMessages hist).length % 2 = 0
  | .told (.reconnected _) => (gapMessages hist).length % 2 = 1
  | .answered _ _ => gap hist = some 1
  | _ => True

/-- The reconnect was told last, for a stream that had just been opened. -/
structure Asks (hs : Handshake) (st : StreamId) (hist : List Entry) : Prop where
  told : ∃ as ds, Out as ∧ (∀ x ∈ ds, x = .deserted) ∧
    hist = as ++ [.opened st] ++ .told (.reconnected hs) :: ds
  gap : gap hist = some 1

theorem Out.asks (h : Out hist) (hs : Handshake) (st : StreamId) :
    Asks hs st (hist ++ [.opened st] ++ [.told (.reconnected hs)]) := by
  have hopened : Out (hist ++ [.opened st]) := h.concat rfl rfl
  refine ⟨⟨hist, [], h, by simp, rfl⟩, ?_⟩
  rw [gap_concat, hopened.gap]
  rfl

/-- Where the protocol stands in each phase of a feed. -/
def Stands (f : Feed) (hist : List Entry) : Prop :=
  match f.phase with
  | .connecting 0 => ∀ x ∈ hist, x = .deserted
  | .connecting (_ + 1) | .waiting (_ + 1) _ => Out hist
  | .waiting 0 _ => False
  | .resuming st none => ∃ k, f.handshakes = k + 1 ∧ Asks ⟨f.id, k⟩ st hist
  | .resuming st (some true) => Balanced none hist ∧ Newest st hist
  | .following g => Balanced none hist ∧ Newest g.stream hist
  | .resuming _ (some false) | .ended => Deserted hist ∧ Resolved hist

variable {allowed : FeedSettings → Prop} {c : FeedContext} {f f' : Feed} {s s' : Store} {found : List Entry}
  {messages : List FeedMessage} {g : Following} {now : Nat}

theorem stands_of_following (hphase : f.phase = .following g) :
    f.Stands hist ↔ Balanced none hist ∧ Newest g.stream hist := by
  rw [Stands, hphase]

theorem resolved_of_none (h : gap hist = none) : Resolved hist := fun n hn => by simp [h] at hn

theorem resolved_of_one (h : gap hist = some 1) : Resolved hist :=
  fun _ hn => .inl (Option.some.inj (hn.symm.trans h))

theorem Stands.resolved (h : f.Stands hist) : Resolved hist := by
  rw [Stands] at h
  split at h
  · exact resolved_of_none (balanced_of_deserted h).gap
  · exact resolved_of_one h.gap
  · exact resolved_of_one h.gap
  · exact h.elim
  · obtain ⟨k, -, hasks⟩ := h
    exact resolved_of_one hasks.gap
  · exact resolved_of_none h.1.gap
  · exact resolved_of_none h.1.gap
  · exact h.2
  · exact h.2

/-- The connection of a feed that follows a stream ends. -/
theorem Balanced.lost (h : Balanced none hist) (hall : Always InTurn hist)
    (hx : x.gapMessage? = none) (hbreaks : x.gap none = some 0) (hturn : InTurn hist x) :
    Out (hist ++ [x] ++ [.told .disconnected]) ∧
      Always InTurn (hist ++ [x] ++ [.told .disconnected]) := by
  have hbroken := h.concat hx hbreaks
  exact ⟨hbroken.out, always_concat.2 ⟨always_concat.2 ⟨hall, hturn⟩, hbroken.gap, hbroken.even⟩⟩

theorem Notices.inTurn (h : f.Notices c x) (hstands : f.Stands hist) : InTurn hist x := by
  cases h with
  | took hphase e =>
    rw [stands_of_following hphase] at hstands
    exact ⟨hstands.1.answered, hstands.2⟩
  | opened | refused | closed | silent => trivial

/-- A feed that ends may leave a gap untold. -/
theorem Resolved.notice (h : Resolved hist) (hx : f.Notices c x) (hdeserted : .deserted ∈ hist) :
    Resolved (hist ++ [x]) := by
  have hleft : Deserted (hist ++ [x]) := .inl (List.mem_append_left _ hdeserted)
  have hsame (n : Nat) (hn : gap hist = some n) : n = 1 ∨ n = 0 ∧ Deserted (hist ++ [x]) :=
    (h n hn).imp_right fun hn => ⟨hn.1, hleft⟩
  intro n hn
  rw [gap_concat] at hn
  cases hx with
  | opened | took => exact hsame n hn
  | refused | closed | silent =>
    cases hgap : gap hist with
    | none =>
      rw [hgap] at hn
      exact .inr ⟨(Option.some.inj hn).symm, hleft⟩
    | some m =>
      rw [hgap] at hn
      exact hsame n (hgap.trans hn)

theorem Does.stands (h : Does c f s f' s' found messages) (hstands : f.Stands hist)
    (hall : Always InTurn hist) (hheard : c.heard = false → .deserted ∈ hist) :
    f'.Stands (hist ++ found ++ messages.map .told) ∧
      Always InTurn (hist ++ found ++ messages.map .told) := by
  cases h with
  | connect hphase =>
    rw [Stands, hphase] at hstands
    rw [List.map_nil, List.append_nil]
    exact ⟨⟨(balanced_of_deserted hstands).concat rfl rfl, newest_opened _ hist⟩,
      always_concat.2 ⟨hall, trivial⟩⟩
  | reconnect hphase =>
    rw [Stands, hphase] at hstands
    have hopened : Out (hist ++ [.opened s.nextStream]) := hstands.concat rfl rfl
    exact ⟨⟨_, rfl, hstands.asks _ _⟩,
      always_concat.2 ⟨always_concat.2 ⟨hall, trivial⟩, hopened.odd⟩⟩
  | fail failing due hphase =>
    rw [Stands, hphase] at hstands
    exact (balanced_of_deserted hstands).lost hall rfl rfl trivial
  | failAgain failing due hphase =>
    rw [Stands, hphase] at hstands
    rw [List.map_nil, List.append_nil]
    exact ⟨hstands.concat rfl rfl, always_concat.2 ⟨hall, trivial⟩⟩
  | resume hphase =>
    rw [Stands, hphase] at hstands
    rw [List.map_nil, List.append_nil, List.append_nil]
    exact ⟨hstands, hall⟩
  | gather hphase =>
    rw [stands_of_following hphase] at hstands
    rw [List.map_nil, List.append_nil]
    exact ⟨⟨hstands.1.concat rfl rfl, hstands.2.concat (by simp)⟩,
      always_concat.2 ⟨hall, hstands.1.answered, hstands.2⟩⟩
  | @gatherLast g _ e _ hphase =>
    rw [stands_of_following hphase] at hstands
    have htook : Balanced none (hist ++ [.took c.now g.stream e]) := hstands.1.concat rfl rfl
    exact ⟨⟨htook.concat rfl rfl, (hstands.2.concat (by simp)).concat (by simp)⟩, always_concat.2
      ⟨always_concat.2 ⟨hall, hstands.1.answered, hstands.2⟩, htook.answered⟩⟩
  | tell hphase =>
    rw [stands_of_following hphase] at hstands
    rw [List.append_nil]
    exact ⟨⟨hstands.1.concat rfl rfl, hstands.2.concat (by simp)⟩,
      always_concat.2 ⟨hall, hstands.1.answered⟩⟩
  | close due hphase =>
    rw [stands_of_following hphase] at hstands
    exact hstands.1.lost hall rfl rfl trivial
  | @closeLast g due hphase =>
    rw [stands_of_following hphase] at hstands
    have hclosed : Balanced (some 0) (hist ++ [.closed]) := hstands.1.concat rfl rfl
    have htold : Balanced (some 0) (hist ++ [.closed] ++ [.told (.batch g.batch.events)]) :=
      hclosed.concat rfl rfl
    rw [List.map_cons, List.append_cons]
    exact ⟨htold.out, always_concat.2 ⟨always_concat.2 ⟨always_concat.2 ⟨hall, trivial⟩,
      hclosed.answered⟩, htold.gap, htold.even⟩⟩
  | silence due hphase =>
    rw [stands_of_following hphase] at hstands
    exact hstands.1.lost hall rfl rfl trivial
  | @retry n due hphase =>
    rw [Stands, hphase] at hstands
    rw [List.map_nil, List.append_nil, List.append_nil]
    cases n with
    | zero => exact hstands.elim
    | succ n => exact ⟨hstands, hall⟩
  | finish hend =>
    rw [List.map_nil, List.append_nil, List.append_nil]
    refine ⟨⟨?_, hstands.resolved⟩, hall⟩
    rcases hend with hunheard | ⟨st, hphase⟩
    · exact .inl (hheard hunheard)
    · rw [Stands, hphase] at hstands
      exact hstands.1
  | finishAt _ hunheard hx =>
    rw [List.map_nil, List.append_nil]
    exact ⟨⟨.append (.inl (hheard hunheard)) _, hstands.resolved.notice hx (hheard hunheard)⟩,
      always_concat.2 ⟨hall, hx.inTurn hstands⟩⟩

theorem Asks.answer {hs : Handshake} (h : Asks hs st hist) :
    Balanced none (hist ++ [.answered hs true]) ∧ Newest st (hist ++ [.answered hs true]) := by
  obtain ⟨as, ds, hout, hds, rfl⟩ := h.told
  have hquiet : gapMessages ds = [] := List.filterMap_eq_nil_iff.2 fun x hx => by rw [hds x hx]; rfl
  have hopened : Out (as ++ [.opened st]) := hout.concat rfl rfl
  refine ⟨hopened.answer hs hquiet, as, .told (.reconnected hs) :: ds ++ [.answered hs true],
    by simp, fun other hmem => ?_⟩
  have hother : .opened other ∈ ds := by simpa using hmem
  simpa using hds _ hother

/-- Being deserted disturbs nothing. -/
theorem Stands.desert (h : f.Stands hist) : f.Stands (hist ++ [.deserted]) := by
  have hfollows {st : StreamId} (h : Balanced none hist ∧ Newest st hist) :
      Balanced none (hist ++ [.deserted]) ∧ Newest st (hist ++ [.deserted]) :=
    ⟨h.1.concat rfl rfl, h.2.concat (by simp)⟩
  have hdeserted (h : Resolved hist) : Deserted (hist ++ [.deserted]) ∧ Resolved (hist ++ [.deserted]) := by
    refine ⟨.inl (by simp), fun n hn => ?_⟩
    rw [gap_concat] at hn
    exact (h n hn).imp_right fun hn => ⟨hn.1, .inl (by simp)⟩
  rw [Stands] at h ⊢
  split at h
  · exact List.forall_mem_append.2 ⟨h, by simp⟩
  · exact h.concat rfl rfl
  · exact h.concat rfl rfl
  · exact h
  · obtain ⟨k, hk, ⟨as, ds, hout, hds, rfl⟩, hgap⟩ := h
    refine ⟨k, hk, ⟨as, ds ++ [.deserted], hout, List.forall_mem_append.2 ⟨hds, by simp⟩, by simp⟩, ?_⟩
    rw [gap_concat, hgap]
    rfl
  · exact hfollows h
  · exact hfollows h
  · exact hdeserted h.2
  · exact hdeserted h.2

theorem Past.stands (h : Past allowed f now hist) : f.Stands hist ∧ Always InTurn hist := by
  induction h with
  | start => exact ⟨by simp [Stands], always_nil⟩
  | step _ _ _ hheard hstep ih =>
    rw [seen, ← List.append_assoc]
    exact (does_of_step hstep).stands ih.1 ih.2 hheard
  | answer _ hs goOn hawaits ih =>
    obtain ⟨hstands, hall⟩ := ih
    obtain ⟨st, k, hphase, hk, rfl, heq⟩ := answer_of_awaits hawaits goOn
    rw [Stands, hphase] at hstands
    obtain ⟨k', hk', hasks⟩ := hstands
    obtain rfl : k = k' := Nat.add_right_cancel (hk.symm.trans hk')
    rw [heq]
    refine ⟨?_, always_concat.2 ⟨hall, hasks.gap⟩⟩
    cases goOn with
    | true => exact hasks.answer
    | false =>
      exact ⟨.inr ⟨_, List.mem_append_right _ (List.mem_singleton_self _)⟩,
        resolved_of_one (by rw [gap_concat, hasks.gap]; rfl)⟩
  | desert _ ih => exact ⟨ih.1.desert, always_concat.2 ⟨ih.2, trivial⟩⟩

theorem alternate_of_always (h : Always InTurn hist) (i : Nat) (m : FeedMessage)
    (hm : (gapMessages hist)[i]? = some m) : m = .disconnected ↔ i % 2 = 0 := by
  induction hist using List.reverseRecOn with
  | nil => simp at hm
  | append_singleton hist x ih =>
    obtain ⟨hall, hx⟩ := always_concat.1 h
    rw [gapMessages_append, List.getElem?_append] at hm
    split at hm
    · exact ih hall hm
    · rename_i hlast
      -- only the last message can be left, and its turn is known
      have hlength : i = (gapMessages hist).length ∧ x.gapMessage? = some m := by
        cases hmessage : x.gapMessage? with
        | none => simp [hmessage] at hm
        | some m' =>
          simp only [gapMessages_cons, hmessage, Option.toList_some, gapMessages_nil,
            List.append_nil, List.getElem?_singleton] at hm
          split at hm
          · exact ⟨by omega, hm⟩
          · simp at hm
      obtain ⟨rfl, hmessage⟩ := hlength
      cases x with
      | told m' =>
        cases m' with
        | batch => simp [Entry.gapMessage?] at hmessage
        | disconnected =>
          obtain rfl := Option.some.inj hmessage
          simpa using hx.2
        | reconnected hs =>
          obtain rfl := Option.some.inj hmessage
          have hodd : (gapMessages hist).length % 2 = 1 := hx
          simp [hodd]
      | _ => simp [Entry.gapMessage?] at hmessage

/-- Whatever the store does, and whatever settings a feed finds, it keeps to the protocol. -/
theorem Past.protocol (h : Past allowed f now hist) : Protocol hist := by
  obtain ⟨hstands, hall⟩ := h.stands
  exact {
    alternate := alternate_of_always hall
    batch := fun xs _ ys heq => hall xs _ ys heq
    took := fun xs _ _ _ ys heq => hall xs _ ys heq
    told := fun xs ys heq => (hall xs _ ys heq).1
    ended := fun xs _ ys heq => hall xs _ ys heq
    lasting := hstands.resolved }

/-- The first connection fails; after the reconnect was answered an event is taken and told. -/
theorem protocol_of_refused : ∃ f : Feed, ∃ hist,
    hist = [.refused, .told .disconnected, .opened 0, .told (.reconnected ⟨0, 0⟩),
      .answered ⟨0, 0⟩ true, .took 101 0 .schema, .told (.batch [.schema])] ∧
    Past (fun _ => True) f 106 hist ∧ Protocol hist := by
  have hstart : Past (fun _ => True) { id := 0, origin := ⟨"o"⟩ } 0 [] := .start ..
  have hrefused := hstart.next ⟨0, {}, true⟩ { failingConnects := 1 } trivial (by decide) rfl rfl
  have hretried := hrefused.next ⟨100, {}, true⟩ {} trivial (by decide) rfl rfl
  have hopened := hretried.next ⟨100, {}, true⟩ {} trivial (by decide) rfl rfl
  have hanswered := hopened.answer ⟨0, 0⟩ true rfl
  have hresumed := hanswered.next ⟨100, {}, true⟩ {} trivial (by decide) rfl rfl
  have htook := hresumed.next ⟨101, {}, true⟩ (.setBuffer {} 0 { origin := ⟨"o"⟩ } [.schema])
    trivial (by decide) rfl rfl
  have htold := htook.next ⟨106, {}, true⟩ (.setBuffer {} 0 { origin := ⟨"o"⟩ } [])
    trivial (by decide) rfl rfl
  exact ⟨_, _, rfl, htold, htold.protocol⟩

end StandingQuery.Feed
