import StandingQuery.Proofs.System.Coherence

/-!
# Writes

A write of fields while the system runs: its events go to the feed of the origin, which leads them
to the channels whose footprints they touch.
-/

namespace StandingQuery

open Json (Value)

/-! ## Well-formed fields -/

namespace FieldWrite

def WellFormed : FieldWrite → Prop
  | set updates => ∀ u ∈ updates, u.2.WellFormed
  | remove _ => True

variable {w : FieldWrite} {id : EntityId} {es es' : Entities} {events : List StoreEvent}

theorem wellFormed_change (hes : es.WellFormed) (hw : w.WellFormed)
    (h : w.change id es = some (es', events)) : es'.WellFormed := by
  have hset {e e' : Entity} (he : es.get? id = some e)
      (hfields : (Value.object e.fields).WellFormed → (Value.object e'.fields).WellFormed) :
      Entities.WellFormed (es.set id e') := by
    intro j new hnew
    rw [SortedMap.get?_set] at hnew
    split at hnew
    · obtain rfl := Option.some.inj hnew
      exact hfields (hes id e he)
    · exact hes j new hnew
  cases w with
  | set updates =>
    obtain ⟨e, he, heq⟩ := Option.map_eq_some_iff.1 h
    obtain ⟨rfl, -⟩ := Prod.mk.inj heq
    exact hset he (Fields.wellFormed_sets hw)
  | remove path =>
    obtain ⟨e, he, heq⟩ := Option.map_eq_some_iff.1 h
    split at heq
    · rename_i fields hremove
      obtain ⟨rfl, -⟩ := Prod.mk.inj heq
      exact hset he fun hfields => Fields.wellFormed_remove? hfields hremove
    · obtain ⟨rfl, -⟩ := Prod.mk.inj heq
      exact hes

theorem reachable_change (hes : es.WellFormed) (h : w.change id es = some (es', events)) :
    es'.reachable = es.reachable := by
  rcases w.written (hes id) h with rfl | ⟨paths, hwritten, -⟩
  · rfl
  · funext root t
    exact hwritten.sameLinks.reachable root t

end FieldWrite

/-! ## Streams -/

namespace Store

variable {s s' : Store} {o : Origin} {id : EntityId} {change : Entities → Entities.Changed}

theorem nextStream_change (h : s.change o id change = .ok s') : s'.nextStream = s.nextStream := by
  rw [Store.change] at h
  split at h
  · simp at h
  · obtain rfl := Except.ok.inj h
    rfl

theorem healthy_change {w : FieldWrite} (h : s.change o id (w.change id) = .ok s') (hs : s.Healthy)
    (hw : w.WellFormed) : s'.Healthy := by
  rw [Store.change] at h
  split at h
  · simp at h
  · rename_i es' events hchange
    obtain rfl := Except.ok.inj h
    refine ⟨hs.faults, hs.failingContains, hs.failingConnects, fun o' => ?_⟩
    rw [entities, data_emit, data_withData]
    split
    · exact w.wellFormed_change (hs.wellFormed o) hw hchange
    · exact hs.wellFormed o'

theorem stream_of_change (h : s.change o id change = .ok s') {st : StreamId} {stream : EventStream}
    (hstream : s.streams.get? st = some stream) :
    ∃ new, s'.streams.get? st = some new ∧ new.origin = stream.origin ∧
      new.attached = stream.attached ∧ ∀ e ∈ stream.buffer, e ∈ new.buffer := by
  have hget := streams_change h st
  rw [hstream, Option.map_some] at hget
  refine ⟨_, hget, ?_⟩
  split
  · exact ⟨rfl, rfl, fun e he => List.mem_append_left _ he⟩
  · exact ⟨rfl, rfl, fun e he => he⟩

end Store

namespace System

variable {s : System} {o : Origin} {id : EntityId} {w : FieldWrite} {store : Store}
  {hand : List Channel} {owed : Channel → Prop} {told : TaskId → List Exchange}

/-- The feed of the origin hears of changes, or will tell a reconnect after which everything is
refreshed; it need not while all subscriptions of the origin are being refreshed. -/
def Heard (s : System) (o : Origin) : Prop :=
  ∀ ch sub q, s.hub.subscriptions.get? ch = some sub → sub.gate = .idle → sub.work = .query q →
    q.origin = o → ∃ f, s.feedOf? o = some f ∧
      (f.stream? ≠ none ∨ s.settings.feed.resyncOnReconnect = true ∧ f.Gone)

/-- What leads to a channel still does so when a write adds to the streams. -/
theorem Keeps.change (hwrite : s.store.change o id (w.change id) = .ok store)
    (hwf : (s.store.entities o).WellFormed) (origin : Origin) : Keeps origin s { s with store } := by
  obtain ⟨es', events, hchange, -, hdata⟩ := Store.change_ok hwrite
  have hreach : store.reach = s.store.reach := by
    funext o'
    have hentities : (store.entities o').reachable = (s.store.entities o').reachable := by
      rw [Store.entities, hdata]
      split
      · subst o'
        exact w.reachable_change hwf hchange
      · rfl
    funext root t
    exact congrFun (congrFun hentities root) t
  refine .of_feed rfl hreach (fun f hf => hf) (fun f st stream _ _ hstream => ?_) (fun _ hm _ => hm)
    fun _ _ ht _ => ht
  obtain ⟨new, hnew, -, -, hbuffer⟩ := Store.stream_of_change hwrite hstream
  exact ⟨new, hnew, hbuffer⟩

/-- An event of a write is sent to the feed that hears of it. -/
theorem Led.of_write (hwired : Wired s.hub.origins s.feeds s.store.streams s.hub.nextFeed
      s.store.nextStream) (hwrite : s.store.change o id (w.change id) = .ok store) {f : Feed}
    (hf : s.feedOf? o = some f)
    (hheard : f.stream? ≠ none ∨ s.settings.feed.resyncOnReconnect = true ∧ f.Gone) {path : FieldPath}
    (hpath : .update id path ∈ w.events id (s.store.entities o)) {v : Footprint}
    (htouched : v.Touched (store.entities o) id path) (ch : Channel) :
    Led { s with store } ch o v := by
  rcases hheard with hstream | ⟨hresync, hgone⟩
  · obtain ⟨st, hst⟩ := Option.ne_none_iff_exists'.1 hstream
    obtain ⟨state, hstate, hget⟩ := Option.bind_eq_some_iff.1 hf
    obtain ⟨f', hf', horigin⟩ := hwired.feed_of o state hstate
    obtain rfl : f = f' := Option.some.inj (hget.symm.trans hf')
    obtain ⟨stream, hstream, ho, hattached⟩ := hwired.stream_of _ f st hget hst
    have hnew := Store.streams_change hwrite st
    rw [hstream, Option.map_some, if_pos ⟨ho.trans horigin, hattached⟩] at hnew
    exact .event (.held hf (.sent hst hnew (List.mem_append_right _ hpath))) htouched
  · exact .catchUp hresync (.gone hf hgone)

/-- Fields are written while the system runs. -/
theorem Coherent.change (h : Coherent hand owed told s)
    (hwrite : s.store.change o id (w.change id) = .ok store) (hw : w.WellFormed)
    (htyped : (s.store.entities o).Typed (s.store.data o).schema)
    (htyped' : (store.entities o).Typed (store.data o).schema) (hheard : s.Heard o) :
    Coherent hand owed told { s with store } := by
  have hwf := h.works.healthy.wellFormed o
  have hkeeps := Keeps.change hwrite hwf
  obtain ⟨es', events, hchange, hfaults, hdata⟩ := Store.change_ok hwrite
  have hschema (o' : Origin) : (store.data o').schema = (s.store.data o').schema := by
    rw [hdata]
    split
    · subst o'
      rfl
    · rfl
  refine { h with
    wired := ?_
    works := ⟨h.works.accepting, h.works.running, Store.healthy_change hwrite h.works.healthy hw,
      h.works.faults⟩
    given := fun x e he => ⟨(h.given x e he).isOk, fun o' schema heq =>
      ((h.given x e he).schema o' schema heq).trans (hschema o').symm⟩
    settled := fun ch sub q hsub hq hidle hc => ?_ }
  · change Wired s.hub.origins s.feeds store.streams s.hub.nextFeed store.nextStream
    rw [Store.nextStream_change hwrite]
    refine h.wired.setStreams (fun st stream hstream => ?_) fun st new hnew => ?_
    · obtain ⟨new, hnew, ho, hattached, -⟩ := Store.stream_of_change hwrite hstream
      exact ⟨new, hnew, ho, hattached⟩
    · rw [Store.streams_change hwrite] at hnew
      obtain ⟨stream, hstream, -⟩ := Option.map_eq_some_iff.1 hnew
      exact h.wired.lt_nextStream st stream hstream
  obtain ⟨es, x, hruns, hshows, hversion, hfootprint, hcurrent⟩ := h.settled ch sub q hsub hq hidle hc
  refine ⟨es, x, hruns, (hschema q.origin).symm ▸ hshows, hversion, hfootprint, ?_⟩
  rcases hcurrent with hconfirms | hled | howed
  · by_cases hall : ∀ e ∈ es, store.Confirms e
    · exact .inl hall
    push Not at hall
    obtain ⟨e, he, hchanged⟩ := hall
    obtain ⟨horigin, hcovers⟩ := Query.covers_of_runs hruns hshows e he
    have hne : store.reply e.origin e.call ≠ s.store.reply e.origin e.call := fun heq =>
      hchanged (heq.trans (hconfirms e he))
    by_cases ho : q.origin = o
    · obtain ⟨f, hf, hhears⟩ := hheard ch sub q hsub hidle hq ho
      subst ho
      rw [horigin] at hne
      obtain ⟨path, hpath, htouched⟩ := Store.touched_of_reply_ne hwrite (hwf id) htyped
        (hschema q.origin ▸ htyped') hcovers hne
      exact .inr (.inl (.of_write h.wired hwrite hf hhears hpath htouched ch))
    · exact absurd (Store.reply_of_ne hwrite (horigin ▸ ho) hcovers) hne
  · exact .inr (.inl (hkeeps _ _ _ hled))
  · exact .inr (.inr howed)

end System
end StandingQuery
