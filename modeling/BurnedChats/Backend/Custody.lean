import Mathlib.Data.List.Perm.Basic
import BurnedChats.Backend.Delivery

/-!
# Where an acknowledged direct message is

A message is given up by design when its event finds no connection or no
subscription, when the connection ends with the event in flight, when the client
leaves the view that held it, and when it cannot be decrypted. The ledger keeps
these apart from messages that were deleted, expired, trimmed or dropped with
the queue. `acked_in_custody` says that nothing else is lost, as long as the
queue's writes find what was read and no sync batch reaches an open chat that
cannot decrypt it.

`passed` collects the ids that left the queue or never were in it. No step takes
an id out of it (`passed_turn`, `passed_env`), and what is gone from the queue is
in it; what is not gone is in the queue by `OfflineQueue.Exact`.
-/

namespace BurnedChats

open Interleave

namespace Custody

open OfflineQueue

variable {K : Type} (decrypts : K → Message → Bool)

/-! ## Custody -/

/-- The queue's part of a request. -/
def Request.toOp : Request → Op
  | .operation op _ => op
  | _ => .done

/-- The offline queue with its log and the operations on it. -/
def offlineQueue (c : Conf (World K × Ledger) Request) : Conf (Queue × Log) Op :=
  ⟨(c.store.1.queue, c.store.2.log), c.pool.map Request.toOp⟩

/-- Message ids are pairwise distinct. -/
def distinctMessages (c : Conf (World K × Ledger) Request) : Action Request (Move K) → Bool
  | .turn i => distinctIds (offlineQueue c) (.turn i)
  | _ => true

/-- The writes to the queue find what was read, and a sync batch does not reach
an open chat that is not verified or has no key. -/
def orderly (c : Conf (World K × Ledger) Request) : Action Request (Move K) → Bool
  | .turn i => undisturbed (offlineQueue c) (.turn i)
  | .env (.deliver i _) =>
      match c.store.1.events[i]? with
      | some (.syncMessages _) =>
          let client := c.store.1.client
          !client.chatOpen c.store.1.sessionId || client.bothVerified && client.key.isSome
      | _ => true
  | _ => true

/-- Settled at the client: ended, given up or in its list. -/
def Settled (l : Ledger) (c : Client K) (x : String) : Prop :=
  x ∈ l.ended ∨ x ∈ l.givenUp ∨ x ∈ c.shownIds

/-- The ids that have left the queue, or never were in it, and are accounted for. -/
def passed (s : World K × Ledger) : List String :=
  s.2.ended ++ s.2.givenUp ++ eventIds s.1.events ++ ids s.1.client.buffered ++ s.1.client.shownIds

theorem mem_passed {s : World K × Ledger} {x : String} : x ∈ passed s
    ↔ x ∈ s.2.ended ∨ x ∈ s.2.givenUp ∨ x ∈ eventIds s.1.events ∨ x ∈ ids s.1.client.buffered
      ∨ x ∈ s.1.client.shownIds := by
  simp only [passed, List.mem_append, or_assoc]

theorem mem_passed_iff {s : World K × Ledger} {x : String} : x ∈ passed s
    ↔ Settled s.2 s.1.client x ∨ x ∈ eventIds s.1.events ∨ x ∈ ids s.1.client.buffered := by
  rw [mem_passed, Settled]
  tauto

/-- What a request carries is accounted for: the batch that is to be deleted has
been handed over, and the message to acknowledge was pushed or handed over. -/
def Request.Carried (pushed past : List String) : Request → Prop
  | .operation op sent =>
      (∀ messages, op = .deleteMessages messages → ∀ x ∈ ids messages, x ∈ past)
        ∧ ∀ m, sent = some m → op = .queueMessage m ∨ m.messageId ∈ pushed
  | .acknowledge m => m.messageId ∈ pushed ∨ m.messageId ∈ past
  | _ => True

structure Kept (c : Conf (World K × Ledger) Request) : Prop where
  exactly : Exact (offlineQueue c)
  gone : ∀ x ∈ c.store.2.log.gone, x ∈ passed c.store
  carried : ∀ r ∈ c.pool, r.Carried (ids c.store.2.log.pushed) (passed c.store)
  acked : ∀ x ∈ c.store.2.acked, x ∈ ids c.store.2.log.pushed ∨ x ∈ passed c.store
  consumed : ∀ x ∈ c.store.1.client.consumed, Settled c.store.2 c.store.1.client x
  connected : c.store.1.client.connected = false → c.store.1.events = []

/-! ### Showing a batch -/

section Batch

variable {decrypts} {c : Client K} {key : K} {now : Nat} {batch : List Message} {x : String}

theorem mem_mergeMessagesSorted {incoming : List DecryptedMessage} :
    x ∈ (c.mergeMessagesSorted incoming).map DecryptedMessage.id
      ↔ x ∈ c.shownIds ∨ x ∈ incoming.map DecryptedMessage.id := by
  unfold Client.mergeMessagesSorted
  have hnew : x ∈ (incoming.filter fun d => !c.shownIds.contains d.id).map DecryptedMessage.id
      ↔ x ∈ incoming.map DecryptedMessage.id ∧ x ∉ c.shownIds := by
    simp only [List.mem_map, List.mem_filter, Bool.not_eq_true', List.contains_eq_mem,
      decide_eq_false_iff_not]
    constructor
    · rintro ⟨d, ⟨hd, hno⟩, rfl⟩
      exact ⟨⟨d, hd, rfl⟩, hno⟩
    · rintro ⟨⟨d, hd, rfl⟩, hno⟩
      exact ⟨d, ⟨hd, hno⟩, rfl⟩
  dsimp only
  split
  · rename_i hempty
    rw [List.isEmpty_iff.mp hempty] at hnew
    simp only [List.map_nil, List.not_mem_nil, false_iff, not_and, not_not] at hnew
    exact ⟨Or.inl, fun h => h.elim id hnew⟩
  · rw [((List.perm_insertionSort _ _).map _).mem_iff, List.map_append, List.mem_append, hnew]
    have : x ∈ c.messages.map DecryptedMessage.id ↔ x ∈ c.shownIds := Iff.rfl
    tauto

theorem mem_outcomes (o : Outcome) {m : Message} (hm : m ∈ batch)
    (ho : outcome decrypts c key now m = o) :
    m.messageId ∈ ids (outcomes decrypts c key now o batch) :=
  List.mem_map_of_mem (List.mem_filter.mpr ⟨hm, by simp [ho]⟩)

theorem mem_showBatch : x ∈ (showBatch decrypts c key now batch).shownIds
    ↔ x ∈ c.shownIds ∨ x ∈ ids (outcomes decrypts c key now .shown batch) := by
  refine mem_mergeMessagesSorted.trans ?_
  rw [List.map_map]
  rfl

variable (decrypts c key now) in
/-- Every message of the batch is hidden, shown or failed. -/
theorem showBatch_complete (hx : x ∈ ids batch) :
    x ∈ ids (outcomes decrypts c key now .hidden batch)
      ∨ x ∈ ids (outcomes decrypts c key now .failed batch)
      ∨ x ∈ (showBatch decrypts c key now batch).shownIds := by
  obtain ⟨m, hm, rfl⟩ := List.mem_map.mp hx
  cases ho : outcome decrypts c key now m with
  | hidden => exact .inl (mem_outcomes .hidden hm ho)
  | shown => exact .inr (.inr (mem_showBatch.mpr (.inr (mem_outcomes .shown hm ho))))
  | failed => exact .inr (.inl (mem_outcomes .failed hm ho))

end Batch

/-! ### Requests -/

section Requests

variable {max : Nat} {w w' : World K} {l : Ledger} {r r' : Request}

theorem eventIds_append (es es' : List Event) :
    eventIds (es ++ es') = eventIds es ++ eventIds es' := List.flatMap_append

@[simp] theorem World.emit_client (w : World K) (es : List Event) :
    (w.emit es).client = w.client := by
  unfold emit
  split <;> rfl

@[simp] theorem World.emit_queue (w : World K) (es : List Event) :
    (w.emit es).queue = w.queue := by
  unfold emit
  split <;> rfl

/-- An event is in flight, or was for nobody. -/
theorem mem_emit {es : List Event} {x : String} (h : x ∈ eventIds es) :
    x ∈ eventIds (w.emit es).events ∨ x ∈ unsent w es := by
  unfold World.emit unsent
  split
  · rw [eventIds_append]
    exact .inl (List.mem_append_right _ h)
  · exact .inr h

theorem emit_events_mono {es : List Event} {x : String} (h : x ∈ eventIds w.events) :
    x ∈ eventIds (w.emit es).events := by
  unfold World.emit
  split
  · rw [eventIds_append]
    exact List.mem_append_left _ h
  · exact h

/-- The events that a request sends with its next step. -/
def sends : Request → List Event
  | .deliverMessageImmediately m => [.newMessage m]
  | .operation op _ => emitted op
  | _ => []

/-- A step moves the queue and sends events; nothing else changes. -/
theorem step_sends (hs : step max r w = some (w', r')) :
    ∃ q', w' = { w with queue := q' }.emit (sends r) := by
  have hnone : w = { w with queue := w.queue }.emit [] := by
    unfold World.emit
    split
    · rw [List.append_nil]
    · rfl
  cases r with
  | send m =>
      obtain ⟨rfl, -⟩ := Prod.mk.inj (Option.some.inj hs)
      exact ⟨w.queue, hnone⟩
  | deliverMessageImmediately m =>
      obtain ⟨rfl, -⟩ := Prod.mk.inj (Option.some.inj hs)
      exact ⟨w.queue, rfl⟩
  | operation op sent =>
      obtain ⟨⟨q', op'⟩, hop, heq⟩ := Option.map_eq_some_iff.mp hs
      obtain ⟨rfl, -⟩ := Prod.mk.inj heq
      exact ⟨q', rfl⟩
  | acknowledge m =>
      obtain ⟨rfl, -⟩ := Prod.mk.inj (Option.some.inj hs)
      exact ⟨w.queue, hnone⟩
  | finished => cases hs

/-- The accounts only grow, by the events that were for nobody among others. -/
theorem record_accounts (max : Nat) (r : Request) (w : World K) (l : Ledger) :
    (∀ x ∈ l.ended, x ∈ (record max r w l).ended)
      ∧ (record max r w l).givenUp = l.givenUp ++ unsent w (sends r) := by
  have hnone : l.givenUp = l.givenUp ++ unsent w [] := by simp [unsent, eventIds]
  cases r with
  | deliverMessageImmediately m => exact ⟨fun _ hx => hx, rfl⟩
  | operation op sent => exact ⟨fun _ hx => List.mem_append_left _ hx, rfl⟩
  | send | acknowledge | finished => exact ⟨fun _ hx => hx, hnone⟩

theorem client_turn (hs : step max r w = some (w', r')) : w'.client = w.client := by
  obtain ⟨q', rfl⟩ := step_sends hs
  exact World.emit_client ..

theorem connected_turn (h : w.client.connected = false → w.events = [])
    (hs : step max r w = some (w', r')) : w'.client.connected = false → w'.events = [] := by
  intro hc
  rw [client_turn hs] at hc
  obtain ⟨q', rfl⟩ := step_sends hs
  rw [World.emit, if_neg (by simp [hc])]
  exact h hc

theorem settled_turn {x : String} (hs : step max r w = some (w', r'))
    (hx : Settled l w.client x) : Settled (record max r w l) w'.client x := by
  obtain ⟨hended, hgivenUp⟩ := record_accounts max r w l
  rw [Settled, client_turn hs, hgivenUp]
  exact hx.imp (hended x) (Or.imp (List.mem_append_left _) id)

/-- Nothing that is accounted for gets lost by a request. -/
theorem passed_turn (hs : step max r w = some (w', r')) {x : String} (hx : x ∈ passed (w, l)) :
    x ∈ passed (w', record max r w l) := by
  rw [mem_passed_iff] at hx ⊢
  rcases hx with hx | hx | hx
  · exact .inl (settled_turn hs hx)
  · obtain ⟨q', rfl⟩ := step_sends hs
    exact .inr (.inl (emit_events_mono hx))
  · exact .inr (.inr (by rwa [client_turn hs]))

/-- What a request sends is accounted for. -/
theorem sent_passed (hs : step max r w = some (w', r')) {x : String}
    (hx : x ∈ eventIds (sends r)) : x ∈ passed (w', record max r w l) := by
  obtain ⟨q', rfl⟩ := step_sends hs
  rw [mem_passed, (record_accounts max r w l).2]
  rcases mem_emit (w := { w with queue := q' }) hx with hx | hx
  · exact .inr (.inr (.inl hx))
  · exact .inr (.inl (List.mem_append_right _ hx))

theorem pushed_record (op : Op) (q : Queue) (log : Log) :
    ∀ x ∈ ids log.pushed, x ∈ ids (OfflineQueue.record max op q log).pushed := by
  intro x hx
  unfold OfflineQueue.record
  split
  · rw [ids, List.map_append]
    exact List.mem_append_left _ hx
  · split <;> exact hx
  · split <;> exact hx
  all_goals exact hx

/-- What is gone from the queue has ended, or was handed to a sync. -/
theorem gone_record {op : Op} {q : Queue} {log : Log} {x : String}
    (hx : x ∈ (OfflineQueue.record max op q log).gone) :
    x ∈ log.gone ∨ x ∈ ends max q op ∨ ∃ messages, op = .deleteMessages messages ∧ x ∈ ids messages := by
  cases op with
  | trim =>
      simp only [OfflineQueue.record] at hx
      by_cases hmax : max = 0
      · rw [if_pos hmax] at hx
        exact .inl hx
      · rw [if_neg hmax] at hx
        simp only [ends, if_neg hmax]
        exact (List.mem_append.mp hx).imp id Or.inl
  | remove | rewrite => exact (List.mem_append.mp hx).imp id Or.inl
  | deleteMessages messages =>
      exact (List.mem_append.mp hx).imp id fun h => .inr ⟨messages, rfl, h⟩
  | set index target edit =>
      simp only [OfflineQueue.record] at hx
      split at hx <;> exact .inl hx
  | queueMessage | updateMessageInQueue | removeMessageFromQueue | deleteEmptied
  | rewriteQueueKeepingLive | writeBack | sync | size | settle | done => exact .inl hx

@[simp] theorem continued_toOp (op : Op) (sent : Option Message) :
    (continued op sent).toOp = op := by
  cases op <;> cases sent <;> rfl

theorem Request.Carried.mono {pushed pushed' past past' : List String}
    (h : r.Carried pushed past) (hpushed : ∀ x ∈ pushed, x ∈ pushed')
    (hpast : ∀ x ∈ past, x ∈ past') : r.Carried pushed' past' := by
  cases r with
  | operation op sent =>
      exact ⟨fun messages hop x hx => hpast x (h.1 messages hop x hx),
        fun m hm => (h.2 m hm).imp id (hpushed _)⟩
  | acknowledge m => exact h.imp (hpushed _) (hpast _)
  | send | deliverMessageImmediately | finished => trivial

/-- A request that goes on with the queue. -/
theorem carried_continued {op : Op} {sent : Option Message} {pushed past : List String}
    (hdelete : ∀ messages, op = .deleteMessages messages → ∀ x ∈ ids messages, x ∈ past)
    (hsent : ∀ m, sent = some m → m.messageId ∈ pushed) :
    (continued op sent).Carried pushed past := by
  unfold continued
  split
  · exact .inl (hsent _ rfl)
  · trivial
  · exact ⟨hdelete, fun m hm => .inr (hsent m hm)⟩

/-- The batch that a sync deletes is the one that it has read. -/
theorem size_of_deleteMessages {op : Op} {q q' : Queue} {messages : List Message}
    (hs : OfflineQueue.step max op q = some (q', .deleteMessages messages)) :
    op = .size messages := by
  cases op with
  | size messages' =>
      obtain ⟨-, hop⟩ := Prod.mk.inj (Option.some.inj hs)
      rw [Op.deleteMessages.inj hop]
  | queueMessage m | remove target newSize =>
      obtain ⟨-, hop⟩ := Prod.mk.inj (Option.some.inj hs)
      split at hop <;> cases hop
  | updateMessageInQueue messageId senderInternalId senderId edit =>
      simp only [OfflineQueue.step] at hs
      repeat' split at hs
      all_goals cases hs
  | removeMessageFromQueue | rewriteQueueKeepingLive | sync =>
      simp only [OfflineQueue.step] at hs
      split at hs <;> cases hs
  | writeBack kept => cases kept <;> cases hs
  | trim | set | deleteEmptied | rewrite | deleteMessages | settle | done => cases hs

/-! ### What a request keeps -/

variable {c : Conf (World K × Ledger) Request} {i : Nat}

theorem offlineQueue_turn (s : World K × Ledger) (pool : List Request) (i : Nat) (r : Request) :
    offlineQueue ⟨s, pool.set i r⟩
      = ⟨(s.1.queue, s.2.log), (pool.map Request.toOp).set i r.toOp⟩ := by
  rw [offlineQueue, List.map_set]

theorem offlineQueue_get (hi : c.pool[i]? = some r) :
    (offlineQueue c).pool[i]? = some r.toOp := by
  simp [offlineQueue, hi]

theorem Kept.exactly_turn (h : Kept c) (hi : c.pool[i]? = some r)
    (hd : distinctMessages c (.turn i) = true) (hg : orderly c (.turn i) = true)
    (hs : step max r c.store.1 = some (w', r')) :
    Exact (offlineQueue ⟨(w', record max r c.store.1 c.store.2), c.pool.set i r'⟩) := by
  rw [offlineQueue_turn]
  have hi' := offlineQueue_get hi
  cases r with
  | send m =>
      obtain ⟨rfl, rfl⟩ := Prod.mk.inj (Option.some.inj hs)
      refine h.exactly.keep hi' rfl ?_ ?_
      · split <;> rfl
      · split <;> trivial
  | deliverMessageImmediately m =>
      obtain ⟨rfl, rfl⟩ := Prod.mk.inj (Option.some.inj hs)
      dsimp only
      rw [World.emit_queue]
      exact h.exactly.keep hi' rfl rfl trivial
  | operation op sent =>
      obtain ⟨⟨q', op'⟩, hop, heq⟩ := Option.map_eq_some_iff.mp hs
      obtain ⟨rfl, rfl⟩ := Prod.mk.inj heq
      dsimp only
      rw [World.emit_queue, continued_toOp]
      exact exact_turn h.exactly hi' hd hg hop
  | acknowledge m =>
      obtain ⟨rfl, rfl⟩ := Prod.mk.inj (Option.some.inj hs)
      exact h.exactly.keep hi' rfl rfl trivial
  | finished => cases hs

theorem Kept.gone_turn (h : Kept c) (hi : c.pool[i]? = some r)
    (hs : step max r c.store.1 = some (w', r')) :
    ∀ x ∈ (record max r c.store.1 c.store.2).log.gone,
      x ∈ passed (w', record max r c.store.1 c.store.2) := by
  intro x hx
  cases r with
  | operation op sent =>
      rcases gone_record hx with hold | hends | ⟨messages, rfl, hhanded⟩
      · exact passed_turn hs (h.gone x hold)
      · exact mem_passed.mpr (.inl (List.mem_append_right _ hends))
      · exact passed_turn hs ((h.carried _ (List.mem_of_getElem? hi)).1 messages rfl x hhanded)
  | send | deliverMessageImmediately | acknowledge | finished => exact passed_turn hs (h.gone x hx)

theorem pushed_turn (hs : step max r w = some (w', r')) :
    ∀ x ∈ ids l.log.pushed, x ∈ ids (record max r w l).log.pushed := by
  cases r with
  | operation op sent => exact pushed_record op w.queue l.log
  | send | deliverMessageImmediately | acknowledge => exact fun x hx => hx
  | finished => cases hs

/-- What the request carries afterwards. -/
theorem Kept.carried_step (h : Kept c) (hi : c.pool[i]? = some r)
    (hs : step max r c.store.1 = some (w', r')) :
    r'.Carried (ids (record max r c.store.1 c.store.2).log.pushed)
      (passed (w', record max r c.store.1 c.store.2)) := by
  cases r with
  | send m =>
      obtain ⟨rfl, rfl⟩ := Prod.mk.inj (Option.some.inj hs)
      split
      · trivial
      · refine ⟨(fun messages hop => by cases hop), fun m' hm' => .inl ?_⟩
        rw [Option.some.inj hm']
  | deliverMessageImmediately m =>
      obtain ⟨rfl, rfl⟩ := Prod.mk.inj (Option.some.inj hs)
      refine .inr (sent_passed hs ?_)
      simp [sends, eventIds, Event.messages, ids]
  | operation op sent =>
      have hcarried := h.carried _ (List.mem_of_getElem? hi)
      obtain ⟨⟨q', op'⟩, hop, heq⟩ := Option.map_eq_some_iff.mp hs
      obtain ⟨rfl, rfl⟩ := Prod.mk.inj heq
      refine carried_continued (fun messages hop' x hx => ?_) fun m hm => ?_
      · dsimp only at hop'
        subst hop'
        obtain rfl := size_of_deleteMessages hop
        refine sent_passed hs ?_
        simpa [sends, emitted, eventIds, Event.messages] using hx
      · rcases hcarried.2 m hm with rfl | hpushed
        · simp [record, OfflineQueue.record, ids]
        · exact pushed_record op _ _ _ hpushed
  | acknowledge m =>
      obtain ⟨rfl, rfl⟩ := Prod.mk.inj (Option.some.inj hs)
      trivial
  | finished => cases hs

theorem Kept.acked_turn (h : Kept c) (hi : c.pool[i]? = some r)
    (hs : step max r c.store.1 = some (w', r')) :
    ∀ x ∈ (record max r c.store.1 c.store.2).acked,
      x ∈ ids (record max r c.store.1 c.store.2).log.pushed
        ∨ x ∈ passed (w', record max r c.store.1 c.store.2) := by
  intro x hx
  have hold : x ∈ c.store.2.acked → _ := fun hx =>
    (h.acked x hx).imp (pushed_turn hs x) (passed_turn hs)
  cases r with
  | acknowledge m =>
      rcases List.mem_append.mp hx with hx | hx
      · exact hold hx
      · obtain rfl := List.mem_singleton.mp hx
        exact (h.carried _ (List.mem_of_getElem? hi)).imp (pushed_turn hs _) (passed_turn hs)
  | send | deliverMessageImmediately | operation | finished => exact hold hx

theorem Kept.turn (h : Kept c) (hi : c.pool[i]? = some r)
    (hd : distinctMessages c (.turn i) = true) (hg : orderly c (.turn i) = true)
    (hs : step max r c.store.1 = some (w', r')) :
    Kept ⟨(w', record max r c.store.1 c.store.2), c.pool.set i r'⟩ where
  exactly := h.exactly_turn hi hd hg hs
  gone := h.gone_turn hi hs
  carried := forall_turn
    (fun q hq => (h.carried q hq).mono (pushed_turn hs) fun _ => passed_turn hs)
    (h.carried_step hi hs)
  acked := h.acked_turn hi hs
  consumed x hx := by
    dsimp only at hx
    rw [client_turn hs] at hx
    exact settled_turn hs (h.consumed x hx)
  connected := connected_turn h.connected hs

end Requests

/-! ### Moves of the client and the connection -/

section Moves

variable {decrypts} {w w' : World K} {l : Ledger} {e : Move K} {x : String}

theorem Settled.showBatch {c : Client K} {key : K} {now : Nat} {batch : List Message}
    (h : Settled l c x ∨ x ∈ ids batch) :
    Settled (l.decrypted decrypts c key now batch) (showBatch decrypts c key now batch) x := by
  unfold Settled Ledger.decrypted
  simp only [List.mem_append]
  rcases h with (h | h | h) | h
  · exact .inl (.inl h)
  · exact .inr (.inl (.inl h))
  · exact .inr (.inr (mem_showBatch.mpr (.inl h)))
  · rcases showBatch_complete decrypts c key now h with h | h | h
    · exact .inl (.inr h)
    · exact .inr (.inl (.inr h))
    · exact .inr (.inr h)

theorem Settled.giveUp {c : Client K} {more : List String} (h : Settled l c x ∨ x ∈ more) :
    Settled { l with givenUp := l.givenUp ++ more } c x := by
  unfold Settled
  simp only [List.mem_append]
  rcases h with (h | h | h) | h
  · exact .inl h
  · exact .inr (.inl (.inl h))
  · exact .inr (.inr h)
  · exact .inr (.inl (.inr h))

theorem mem_bufferInbound {c : Client K} {m : Message} :
    x ∈ ids (c.bufferInbound m).buffered ↔ x ∈ ids c.buffered ∨ x = m.messageId := by
  unfold Client.bufferInbound
  split
  · rename_i hin
    simp only [List.contains_eq_mem, decide_eq_true_eq] at hin
    exact ⟨Or.inl, fun h => h.elim id fun heq => heq ▸ hin⟩
  · simp [ids]

@[simp] theorem settled_bufferInbound {c : Client K} {m : Message} :
    Settled l (c.bufferInbound m) x ↔ Settled l c x := by
  unfold Client.bufferInbound
  split <;> rfl

/-- What is settled stays so when an event arrives. -/
theorem receive_settled {c : Client K} {sessionId : String} {now : Nat} {event : Event}
    (h : Settled l c x) :
    Settled (l.received decrypts c sessionId now event)
      (c.receive decrypts sessionId now event) x := by
  cases event with
  | newMessage m =>
      simp only [Ledger.received, Client.receive]
      split
      · exact settled_bufferInbound.mpr h
      · exact Settled.giveUp (.inl h)
  | syncMessages messages =>
      simp only [Ledger.received, Client.receive]
      cases c.chatOpen sessionId with
      | false => exact Settled.giveUp (.inl h)
      | true =>
          cases c.bothVerified with
          | false => exact h
          | true =>
              simp only [Bool.not_true, Bool.or_self, Bool.false_eq_true, if_false]
              cases c.key with
              | none => exact h
              | some key => exact Settled.showBatch (.inl h)

/-- The event itself is settled or in the buffer. -/
theorem receive_settles {c : Client K} {sessionId : String} {now : Nat} {event : Event}
    (hready : ∀ messages, event = .syncMessages messages →
      (!c.chatOpen sessionId || c.bothVerified && c.key.isSome) = true)
    (h : x ∈ ids event.messages) :
    Settled (l.received decrypts c sessionId now event) (c.receive decrypts sessionId now event) x
      ∨ x ∈ ids (c.receive decrypts sessionId now event).buffered := by
  cases event with
  | newMessage m =>
      simp only [Ledger.received, Client.receive]
      split
      · refine .inr (mem_bufferInbound.mpr (.inr ?_))
        simpa [ids, Event.messages] using h
      · exact .inl (Settled.giveUp (.inr h))
  | syncMessages messages =>
      have hready' := hready messages rfl
      simp only [Ledger.received, Client.receive]
      cases hopen : c.chatOpen sessionId with
      | false => exact .inl (Settled.giveUp (.inr h))
      | true =>
          simp only [hopen, Bool.not_true, Bool.false_or, Bool.and_eq_true] at hready'
          obtain ⟨key, hkey⟩ := Option.isSome_iff_exists.mp hready'.2
          simp only [hready'.1, hkey, Bool.not_true, Bool.or_self, Bool.false_eq_true, if_false]
          exact .inl (Settled.showBatch (.inr h))

/-- The buffer loses nothing, and the flush is not concerned. -/
theorem receive_keeps (c : Client K) (sessionId : String) (now : Nat) (event : Event) :
    (∀ x ∈ ids c.buffered, x ∈ ids (c.receive decrypts sessionId now event).buffered)
      ∧ (c.receive decrypts sessionId now event).consumed = c.consumed
      ∧ (c.receive decrypts sessionId now event).connected = c.connected := by
  cases event with
  | newMessage m =>
      simp only [Client.receive]
      split
      · refine ⟨fun x hx => mem_bufferInbound.mpr (.inl hx), ?_⟩
        unfold Client.bufferInbound
        split <;> exact ⟨rfl, rfl⟩
      · exact ⟨fun x hx => hx, rfl, rfl⟩
  | syncMessages messages =>
      simp only [Client.receive]
      split
      · exact ⟨fun x hx => hx, rfl, rfl⟩
      · cases c.key <;> exact ⟨fun x hx => hx, rfl, rfl⟩

theorem mem_eventIds_eraseIdx {es : List Event} {i : Nat} {event : Event}
    (hi : es[i]? = some event) (hx : x ∈ eventIds es) :
    x ∈ ids event.messages ∨ x ∈ eventIds (es.eraseIdx i) := by
  obtain ⟨e', he', hx'⟩ := List.mem_flatMap.mp hx
  obtain ⟨hlt, rfl⟩ := List.getElem?_eq_some_iff.mp hi
  have hperm : (es[i] :: es.eraseIdx i).Perm es := List.getElem_cons_eraseIdx_perm hlt
  rcases List.mem_cons.mp (hperm.mem_iff.mpr he') with rfl | hrest
  · exact .inl hx'
  · exact .inr (List.mem_flatMap.mpr ⟨e', hrest, hx'⟩)

theorem env_deliver {i now : Nat} (hs : env decrypts (.deliver i now) w = some w') :
    ∃ event, w.events[i]? = some event
      ∧ w' = { w with
          client := w.client.receive decrypts w.sessionId now event
          events := w.events.eraseIdx i } := by
  simp only [env] at hs
  cases hi : w.events[i]? with
  | none => simp [hi] at hs
  | some event =>
      simp only [hi] at hs
      exact ⟨event, rfl, (Option.some.inj hs).symm⟩

theorem env_ingest {i now : Nat} (hs : env decrypts (.ingest i now) w = some w') :
    ∃ key m, w.client.key = some key ∧ w.client.buffered[i]? = some m
      ∧ w' = { w with
          client := { showBatch decrypts w.client key now [m] with
            consumed := w.client.consumed ++ [m.messageId] } } := by
  simp only [env] at hs
  split at hs
  · cases hs
  · cases hkey : w.client.key with
    | none => simp [hkey] at hs
    | some key =>
        cases hi : w.client.buffered[i]? with
        | none => simp [hkey, hi] at hs
        | some m =>
            simp only [hkey, hi] at hs
            exact ⟨key, m, rfl, rfl, (Option.some.inj hs).symm⟩

variable (decrypts) in
/-- A view that is left gives up what it held. -/
theorem changeView_settles {view : View} {sessionId : Option String}
    (h : Settled l w.client x ∨ x ∈ ids w.client.buffered) :
    Settled (account decrypts (.changeView view sessionId) w l)
        (w.client.changeView view sessionId) x
      ∨ x ∈ ids (w.client.changeView view sessionId).buffered := by
  simp only [Settled, account, Client.changeView, Client.shownIds, List.mem_append] at h ⊢
  cases w.client.keepsBuffer view sessionId <;> cases w.client.keepsMessages view sessionId <;>
    simp only [Bool.false_eq_true, if_false, if_true, List.not_mem_nil, or_false] <;> tauto

variable (decrypts) in
theorem deleted_settles {messageId : String} (h : Settled l w.client x) :
    Settled (account decrypts (.deleted messageId) w l)
      { w.client with messages := w.client.messages.filter fun d => d.id != messageId } x := by
  rcases h with h | h | h
  · exact .inl (List.mem_append_left _ h)
  · exact .inr (.inl h)
  · obtain ⟨d, hd, rfl⟩ := List.mem_map.mp h
    by_cases hid : d.id = messageId
    · exact .inl (List.mem_append_right _ (by simp [hid]))
    · exact .inr (.inr (List.mem_map_of_mem (List.mem_filter.mpr ⟨hd, by simp [hid]⟩)))

/-- Nothing that is accounted for gets lost by a move. -/
theorem passed_env {pool : List Request}
    (hconsumed : ∀ x ∈ w.client.consumed, Settled l w.client x)
    (hg : orderly ⟨(w, l), pool⟩ (.env e) = true) (hs : env decrypts e w = some w')
    (hx : x ∈ passed (w, l)) : x ∈ passed (w', account decrypts e w l) := by
  rw [mem_passed_iff] at hx ⊢
  cases e with
  | connect | unregister | setVerified | setKey | setMessageTtl | hide | cancel | tick =>
      obtain rfl := Option.some.inj hs
      exact hx
  | disconnect =>
      obtain rfl := Option.some.inj hs
      rcases hx with hx | hx | hx
      · exact .inl (Settled.giveUp (.inl hx))
      · exact .inl (Settled.giveUp (.inr hx))
      · exact .inr (.inr hx)
  | changeView view sessionId =>
      obtain rfl := Option.some.inj hs
      rcases hx with hx | hx | hx
      · exact (changeView_settles decrypts (.inl hx)).imp id .inr
      · exact .inr (.inl hx)
      · exact (changeView_settles decrypts (.inr hx)).imp id .inr
  | deliver i now =>
      obtain ⟨event, hi, rfl⟩ := env_deliver hs
      have hready : ∀ messages, event = .syncMessages messages →
          (!w.client.chatOpen w.sessionId
            || w.client.bothVerified && w.client.key.isSome) = true := by
        rintro messages rfl
        simpa only [orderly, hi] using hg
      simp only [account, hi]
      rcases hx with hx | hx | hx
      · exact .inl (receive_settled hx)
      · rcases mem_eventIds_eraseIdx hi hx with hx | hx
        · exact (receive_settles hready hx).imp id .inr
        · exact .inr (.inl hx)
      · exact .inr (.inr ((receive_keeps ..).1 x hx))
  | ingest i now =>
      obtain ⟨key, m, hkey, hi, rfl⟩ := env_ingest hs
      simp only [account, hkey, hi]
      exact hx.imp (fun hx => Settled.showBatch (.inl hx)) id
  | consume =>
      obtain rfl := Option.some.inj hs
      rcases hx with hx | hx | hx
      · exact .inl hx
      · exact .inr (.inl hx)
      · by_cases hc : x ∈ w.client.consumed
        · exact .inl (hconsumed x hc)
        · obtain ⟨m, hm, rfl⟩ := List.mem_map.mp hx
          exact .inr (.inr (List.mem_map_of_mem (List.mem_filter.mpr ⟨hm, by simp [hc]⟩)))
  | deleted messageId =>
      obtain rfl := Option.some.inj hs
      exact hx.imp (deleted_settles decrypts) id
  | dropQueue =>
      obtain rfl := Option.some.inj hs
      exact hx.imp (Or.imp (List.mem_append_left _) id) id

/-- What the flush has finished is settled. -/
theorem consumed_env (hconsumed : ∀ x ∈ w.client.consumed, Settled l w.client x)
    (hs : env decrypts e w = some w') :
    ∀ x ∈ w'.client.consumed, Settled (account decrypts e w l) w'.client x := by
  intro x hx
  cases e with
  | connect | unregister | setVerified | setKey | setMessageTtl | hide | tick =>
      obtain rfl := Option.some.inj hs
      exact hconsumed x hx
  | changeView | consume | cancel =>
      obtain rfl := Option.some.inj hs
      cases hx
  | disconnect =>
      obtain rfl := Option.some.inj hs
      exact Settled.giveUp (.inl (hconsumed x hx))
  | deliver i now =>
      obtain ⟨event, hi, rfl⟩ := env_deliver hs
      simp only [account, hi]
      refine receive_settled (hconsumed x ?_)
      rw [← (receive_keeps w.client w.sessionId now event).2.1]
      exact hx
  | ingest i now =>
      obtain ⟨key, m, hkey, hi, rfl⟩ := env_ingest hs
      simp only [account, hkey, hi]
      rcases List.mem_append.mp hx with hx | hx
      · exact Settled.showBatch (.inl (hconsumed x hx))
      · refine Settled.showBatch (.inr ?_)
        simpa [ids] using hx
  | deleted messageId =>
      obtain rfl := Option.some.inj hs
      exact deleted_settles decrypts (hconsumed x hx)
  | dropQueue =>
      obtain rfl := Option.some.inj hs
      exact (hconsumed x hx).imp (List.mem_append_left _) id

theorem received_keeps (l : Ledger) (c : Client K) (sessionId : String) (now : Nat)
    (event : Event) : (l.received decrypts c sessionId now event).log = l.log
      ∧ (l.received decrypts c sessionId now event).acked = l.acked := by
  unfold Ledger.received
  split
  · split <;> exact ⟨rfl, rfl⟩
  · split
    · exact ⟨rfl, rfl⟩
    · split
      · exact ⟨rfl, rfl⟩
      · cases c.key <;> exact ⟨rfl, rfl⟩

theorem connected_env (h : w.client.connected = false → w.events = [])
    (hs : env decrypts e w = some w') : w'.client.connected = false → w'.events = [] := by
  intro hc
  cases e with
  | connect =>
      obtain rfl := Option.some.inj hs
      cases hc
  | disconnect =>
      obtain rfl := Option.some.inj hs
      rfl
  | deliver i now =>
      obtain ⟨event, hi, rfl⟩ := env_deliver hs
      dsimp only at hc ⊢
      rw [(receive_keeps w.client w.sessionId now event).2.2] at hc
      rw [h hc, List.eraseIdx_nil]
  | ingest i now =>
      obtain ⟨key, m, hkey, hi, rfl⟩ := env_ingest hs
      exact h hc
  | unregister | changeView | setVerified | setKey | setMessageTtl | hide | consume | cancel
  | deleted | dropQueue | tick =>
      obtain rfl := Option.some.inj hs
      exact h hc

/-- Only a drop of the queue touches the queue's log. -/
theorem queue_env (hs : env decrypts e w = some w') :
    (e = .dropQueue ∧ w'.queue = { w.queue with list := [] }
        ∧ (account decrypts e w l).log = { l.log with gone := l.log.gone ++ ids w.queue.list })
      ∨ (w'.queue.list = w.queue.list ∧ (account decrypts e w l).log = l.log) := by
  cases e with
  | dropQueue =>
      obtain rfl := Option.some.inj hs
      exact .inl ⟨rfl, rfl, rfl⟩
  | deliver i now =>
      obtain ⟨event, hi, rfl⟩ := env_deliver hs
      refine .inr ⟨rfl, ?_⟩
      simp only [account, hi]
      exact (received_keeps ..).1
  | ingest i now =>
      obtain ⟨key, m, hkey, hi, rfl⟩ := env_ingest hs
      refine .inr ⟨rfl, ?_⟩
      simp only [account, hkey, hi, Ledger.decrypted]
  | connect | disconnect | unregister | changeView | setVerified | setKey | setMessageTtl | hide
  | consume | cancel | deleted | tick =>
      obtain rfl := Option.some.inj hs
      exact .inr ⟨rfl, rfl⟩

theorem acked_env : (account decrypts e w l).acked = l.acked := by
  cases e with
  | deliver i now =>
      simp only [account]
      cases w.events[i]? with
      | none => rfl
      | some event => exact (received_keeps ..).2
  | ingest i now =>
      simp only [account]
      cases w.client.key <;> cases w.client.buffered[i]? <;> rfl
  | connect | disconnect | unregister | changeView | setVerified | setKey | setMessageTtl | hide
  | consume | cancel | deleted | dropQueue | tick => rfl

end Moves

/-! ### Runs -/

variable {c : Conf (World K × Ledger) Request}

theorem Kept.env {decrypts : K → Message → Bool} (h : Kept c) {e : Move K} {w' : World K}
    (hg : orderly c (.env e) = true) (hs : env decrypts e c.store.1 = some w') :
    Kept { c with store := (w', account decrypts e c.store.1 c.store.2) } := by
  have hpassed : ∀ x ∈ passed c.store, x ∈ passed (w', account decrypts e c.store.1 c.store.2) :=
    fun x => passed_env h.consumed hg hs
  have hpushed : (account decrypts e c.store.1 c.store.2).log.pushed = c.store.2.log.pushed := by
    rcases queue_env (l := c.store.2) hs with ⟨-, -, hlog⟩ | ⟨-, hlog⟩ <;> rw [hlog]
  refine ⟨?_, ?_, fun r hr => ?_, fun x hx => ?_, consumed_env h.consumed hs,
    connected_env h.connected hs⟩
  · rcases queue_env (l := c.store.2) hs with ⟨-, hqueue, hlog⟩ | ⟨hlist, hlog⟩
    · have hexact := h.exactly.drop
      simp only [offlineQueue, hqueue, hlog] at hexact ⊢
      exact hexact
    · have hexact := h.exactly
      refine ⟨?_, ?_, ?_, ?_, ?_⟩
      all_goals
        simp only [offlineQueue, hlist, hlog]
      · exact hexact.perm
      · exact hexact.nodup
      · exact hexact.known
      · exact hexact.gone
      · exact hexact.edits
  · intro x hx
    rcases queue_env (l := c.store.2) hs with ⟨rfl, -, hlog⟩ | ⟨-, hlog⟩
    · dsimp only at hx
      rw [hlog] at hx
      rcases List.mem_append.mp hx with hx | hx
      · exact hpassed x (h.gone x hx)
      · exact mem_passed.mpr (.inl (List.mem_append_right _ hx))
    · dsimp only at hx
      rw [hlog] at hx
      exact hpassed x (h.gone x hx)
  · dsimp only
    rw [hpushed]
    exact (h.carried r hr).mono (fun _ hx => hx) hpassed
  · dsimp only at hx ⊢
    rw [acked_env] at hx
    rw [hpushed]
    exact (h.acked x hx).imp id (hpassed x)

theorem Request.toOp_of_opens {r : Request} (h : r.opens = true) :
    r.toOp = .done ∨ r.toOp.opens = true := by
  unfold Request.opens at h
  split at h
  · exact .inl rfl
  · cases h
  · exact .inr h
  · cases h

theorem Kept.start (h : Kept c) {r : Request} (hopen : r.opens = true) :
    Kept { c with pool := c.pool ++ [r] } := by
  refine ⟨?_, h.gone, forall_start h.carried ?_, h.acked, h.consumed, h.connected⟩
  · have hpool : offlineQueue { c with pool := c.pool ++ [r] }
        = { offlineQueue c with pool := (offlineQueue c).pool ++ [r.toOp] } := by
      simp [offlineQueue]
    rw [hpool]
    rcases Request.toOp_of_opens hopen with hop | hop
    · rw [hop]
      exact h.exactly.start rfl trivial
    · exact h.exactly.start (Op.holds_of_opens hop) (Op.known_of_opens hop _)
  · unfold Request.opens at hopen
    split at hopen
    · trivial
    · cases hopen
    · rename_i op _
      refine ⟨fun messages hop => ?_, (fun m hm => by cases hm)⟩
      subst hop
      cases hopen
    · cases hopen

theorem kept_preserved (decrypts : K → Message → Bool) (max : Nat) :
    (server decrypts max).Preserves
      (fun c act => (distinctMessages c act && orderly c act) = true) Kept where
  start c r h _ hopen := h.start hopen
  turn c i r s' r' h hg hi hs := by
    obtain ⟨hd, ho⟩ := Bool.and_eq_true_iff.mp hg
    obtain ⟨hstep, hledger⟩ := Server.recording_step hs
    obtain ⟨w', l'⟩ := s'
    obtain rfl := hledger
    exact h.turn hi hd ho hstep
  env c e s' h hg hs := by
    obtain ⟨-, ho⟩ := Bool.and_eq_true_iff.mp hg
    obtain ⟨henv, hledger⟩ := Server.tracking_env hs
    obtain ⟨w', l'⟩ := s'
    obtain rfl := hledger
    exact h.env ho henv

/-- In the offline queue (or in the hands of a prune that is pushing it back), on
its way to the connected client, in the client's buffer or in its list. -/
def InCustody (c : Conf (World K × Ledger) Request) (x : String) : Prop :=
  x ∈ ids (c.store.1.queue.list ++ held (offlineQueue c).pool)
    ∨ (c.store.1.client.connected = true ∧ x ∈ eventIds c.store.1.events)
    ∨ x ∈ ids c.store.1.client.buffered
    ∨ x ∈ c.store.1.client.shownIds

/-- What was pushed and is not gone is in the queue. -/
theorem Kept.queued (h : Kept c) {x : String} (hx : x ∈ ids c.store.2.log.pushed)
    (hgone : x ∉ c.store.2.log.gone) :
    x ∈ ids (c.store.1.queue.list ++ held (offlineQueue c).pool) := by
  have hperm : (ids (c.store.1.queue.list ++ held (offlineQueue c).pool)).Perm
      (ids c.store.2.log.expected) := h.exactly.perm.map _
  rw [hperm.mem_iff, Log.ids_expected]
  obtain ⟨m, hm, rfl⟩ := List.mem_map.mp hx
  exact List.mem_map_of_mem (List.mem_filter.mpr ⟨hm, decide_eq_true hgone⟩)

/-- An acknowledged message. -/
theorem Kept.accounted (h : Kept c) {x : String} (hx : x ∈ c.store.2.acked) :
    x ∈ c.store.2.ended ∨ x ∈ c.store.2.givenUp ∨ InCustody c x := by
  have hpassed : x ∈ passed c.store →
      x ∈ c.store.2.ended ∨ x ∈ c.store.2.givenUp ∨ InCustody c x := by
    intro hp
    rcases mem_passed.mp hp with hp | hp | hp | hp | hp
    · exact .inl hp
    · exact .inr (.inl hp)
    · refine .inr (.inr (.inr (.inl ⟨?_, hp⟩)))
      refine Bool.not_eq_false _ ▸ fun hc => ?_
      rw [h.connected hc] at hp
      cases hp
    · exact .inr (.inr (.inr (.inr (.inl hp))))
    · exact .inr (.inr (.inr (.inr (.inr hp))))
  rcases h.acked x hx with hpushed | hp
  · by_cases hgone : x ∈ c.store.2.log.gone
    · exact hpassed (h.gone x hgone)
    · exact .inr (.inr (.inl (h.queued hpushed hgone)))
  · exact hpassed hp

def freshClient : Client K where
  connected := false
  view := .home
  sessionId := none
  bothVerified := false
  key := none
  hiddenIds := []
  messageTtlSeconds := 0
  buffered := []
  messages := []
  consumed := []

def freshWorld (sessionId : String) (now : Nat) : World K where
  sessionId := sessionId
  queue := ⟨now, []⟩
  live := false
  client := freshClient
  events := []

def freshLedger : Ledger := ⟨emptyLog, [], [], []⟩

/-- The client is connected, and on its home view. -/
def sentToHome : List (Action Request (Move Unit)) :=
  [.env .connect, .start (.send (sampleMessage "m1" 0)), .turn 0, .turn 0, .turn 0,
    .env (.deliver 0 0)]

/-- A message for an absent recipient, one for the view of the verification, and
one for the chat; the first is handed over by a sync, the last is on its way. -/
def handedOver : List (Action Request (Move Unit)) :=
  [.start (.send (sampleMessage "m1" 0)), .turn 0, .turn 0, .turn 0, .turn 0,
    .env .connect, .env (.changeView .verify (some "s")),
    .start (.send (sampleMessage "m2" 0)), .turn 1, .turn 1, .turn 1, .env (.deliver 0 0),
    .env (.setKey (some ())), .env (.setVerified true), .env (.changeView .chat (some "s")),
    .env (.ingest 0 0), .env .consume,
    .start (.operation .sync none), .turn 2, .turn 2, .turn 2, .turn 2, .env (.deliver 0 0),
    .start (.send (sampleMessage "m3" 0)), .turn 3, .turn 3, .turn 3]

end Custody

end BurnedChats
