import BurnedChats.Frontend.RoomView

/-!
# The room view converges

Each message has a position in the server's history up to which it is shown (`ShowsAt`).
What the server has told about it later is still being decrypted. An own message on its
way is shown as its creation is to show it (`Underway`). Every orderly step keeps this
(`step_coherent`), and when nothing is being decrypted any more the positions are where
the server is (`room_converges`).
-/

namespace BurnedChats

open Interleave

namespace RoomView

open MessageList
open DirectChat (WireMessage EditPayload wire)

variable {Cipher : Type}

/-! ## The invariant -/

section Invariant

variable (decrypt : Cipher → Option String) (log : List (Broadcast Cipher)) (v : View Cipher)

/-- The server shows an entry after the first `n` broadcasts. -/
def Served (n : Nat) (id : MessageId) (x : Entry) : Prop :=
  ∃ w ∈ serverList log n, w.messageId = id ∧ wireEntry decrypt w = x

/-- A snapshot is decrypted but for `rest`, or hidden. -/
def Synced (upTo : Nat) (decrypted : List DecryptedMessage)
    (rest : List (WireMessage Cipher)) : Prop :=
  ∃ before kept : List (WireMessage Cipher), serverList log upTo = before ++ rest
    ∧ kept.Sublist before
    ∧ decrypted = kept.map (fun w => View.decryptSynced decrypt w (stamp w))
    ∧ ∀ w ∈ before, w ∈ kept ∨ w.messageId ∈ v.hidden

/-- What a handler has read off its event. A message that is being decrypted has not been
deleted. -/
def Fits : Task Cipher → Prop
  | .newMessage position w timestamp => position < v.received
      ∧ log[position]? = some (.created w) ∧ timestamp = stamp w
      ∧ ∀ q < v.received, log[q]? ≠ some (.deleted w.messageId)
  | .edited position e editedAtMs => position < v.received
      ∧ log[position]? = some (.edited e) ∧ e.editedAt = some editedAtMs
  | .syncMessage upTo w timestamp rest decrypted => timestamp = stamp w
      ∧ Synced decrypt log v upTo decrypted (w :: rest)
  | .done => True

/-- A message is shown as the server had it after the first `n` broadcasts, which the
applied snapshots do not exceed. Later broadcasts about it are being decrypted, and of the
earlier ones only those that an applied snapshot reflects. -/
structure ShowsAt (id : MessageId) (n : Nat) : Prop where
  synced : v.synced ≤ n
  told : n ≤ v.told log id
  own : id ∈ v.own → ∀ p w, log[p]? = some (.created w) → w.messageId = id →
    p < n ∨ Arriving v id
  pending : ∀ p b, n ≤ p → p < v.received → log[p]? = some b → b.messageId = id → Pending v p
  edits : (∃ x, Shown v.messages id x) → ∀ p e editedAtMs, .edited p e editedAtMs ∈ v.tasks →
    e.messageId = id → p < n → n ≤ v.synced
  entries : ∀ x, Shown v.messages id x ↔ Served decrypt log n id x

/-- An own message on its way: no broadcast about it has been handled, and its creation is
to show it as it is. -/
structure Underway (m : DecryptedMessage) : Prop where
  own : m.id ∈ v.own
  pending : ∀ p b, p < v.received → log[p]? = some b → b.messageId = m.id → Pending v p
  relayed : ∀ (p : Nat) (w : WireMessage Cipher), log[p]? = some (.created w) → w.messageId = m.id →
    entry m = wireEntry decrypt w ∧ m.status = .sending ∧ (decrypt w.cipher).isSome = true

structure Coherent : Prop where
  tidy : Tidy v.messages
  fits : ∀ t ∈ v.tasks, Fits decrypt log v t
  positions : (v.tasks.filterMap Task.position).Nodup
  acked : v.acked ⊆ v.own
  underway : ∀ m ∈ v.messages, inFlight m = true → m.id ∉ v.hidden → Underway decrypt log v m
  settled : ∀ id ∉ v.hidden, (∀ m ∈ v.messages, m.id = id → inFlight m = false) →
    ∃ n, ShowsAt decrypt log v id n

end Invariant

section Steps

variable {decrypt : Cipher → Option String} {log : List (Broadcast Cipher)} {v v' : View Cipher}
  {a : Ambient} {id : MessageId} {n p : Nat} {m : DecryptedMessage} {t : Task Cipher}

theorem told_mono (hreceived : v.received ≤ v'.received) (hsynced : v.synced ≤ v'.synced)
    (hacked : id ∈ v.acked → id ∈ v'.acked) : v.told log id ≤ v'.told log id := by
  unfold View.told
  by_cases hmem : id ∈ v.acked
  · rw [if_pos hmem, if_pos (hacked hmem)]
    omega
  · rw [if_neg hmem]
    omega

theorem received_le_told : v.received ≤ v.told log id :=
  Nat.le_trans (Nat.le_max_left ..) (Nat.le_max_left ..)

/-- What does not touch a message. -/
theorem ShowsAt.frame (h : ShowsAt decrypt log v id n) (hsynced : v'.synced = v.synced)
    (htold : v.told log id ≤ v'.told log id) (hown : id ∈ v'.own → id ∈ v.own)
    (harriving : Arriving v id → Arriving v' id)
    (hpending : ∀ p b, p < v'.received → log[p]? = some b → b.messageId = id →
      (p < v.received → Pending v p) → Pending v' p)
    (hedits : ∀ p e editedAtMs, .edited p e editedAtMs ∈ v'.tasks → e.messageId = id → p < n →
      .edited p e editedAtMs ∈ v.tasks ∨ n ≤ v.synced)
    (hshown : ∀ x, Shown v'.messages id x ↔ Shown v.messages id x) :
    ShowsAt decrypt log v' id n := by
  refine ⟨hsynced ▸ h.synced, h.told.trans htold, ?_, ?_, ?_, ?_⟩
  · intro hid p w hp hwid
    exact (h.own (hown hid) p w hp hwid).imp_right harriving
  · intro p b hn hp hb hid
    exact hpending p b hp hb hid fun hlt => h.pending p b hn hlt hb hid
  · intro hlisted p e editedAtMs ht hid hlt
    obtain ⟨x, hx⟩ := hlisted
    rw [hsynced]
    rcases hedits p e editedAtMs ht hid hlt with ht | hle
    · exact h.edits ⟨x, (hshown x).mp hx⟩ p e editedAtMs ht hid hlt
    · exact hle
  · intro x
    rw [hshown]
    exact h.entries x

theorem Underway.frame (h : Underway decrypt log v m) (hown : m.id ∈ v.own → m.id ∈ v'.own)
    (hpending : ∀ p b, p < v'.received → log[p]? = some b → b.messageId = m.id →
      (p < v.received → Pending v p) → Pending v' p) : Underway decrypt log v' m := by
  refine ⟨hown h.own, ?_, h.relayed⟩
  intro p b hp hb hid
  exact hpending p b hp hb hid fun hlt => h.pending p b hlt hb hid

theorem Synced.mono {upTo : Nat} {decrypted : List DecryptedMessage}
    {rest : List (WireMessage Cipher)} (h : Synced decrypt log v upTo decrypted rest)
    (hhidden : v.hidden ⊆ v'.hidden) : Synced decrypt log v' upTo decrypted rest := by
  obtain ⟨before, kept, hlist, hsub, hdecrypted, hall⟩ := h
  exact ⟨before, kept, hlist, hsub, hdecrypted,
    fun w hw => (hall w hw).imp_right fun hid => hhidden hid⟩

theorem Fits.mono (h : Fits decrypt log v t) (hreceived : v.received = v'.received)
    (hhidden : v.hidden ⊆ v'.hidden) : Fits decrypt log v' t := by
  cases t with
  | newMessage position w timestamp =>
      unfold Fits at h ⊢
      rw [← hreceived]
      exact h
  | edited position e editedAtMs =>
      unfold Fits at h ⊢
      rw [← hreceived]
      exact h
  | syncMessage upTo w timestamp rest decrypted =>
      exact ⟨h.1, h.2.mono hhidden⟩
  | done => trivial

theorem coherent_empty : Coherent decrypt log (View.empty : View Cipher) := by
  refine ⟨tidy_nil, nofun, List.nodup_nil, nofun, nofun, ?_⟩
  intro id _ _
  refine ⟨0, Nat.le_refl 0, Nat.zero_le _, nofun, nofun, nofun, ?_⟩
  intro x
  constructor
  · rintro ⟨m, hm, -⟩
    cases hm
  · rintro ⟨w, hw, -⟩
    cases hw

theorem Coherent.hideMessages (h : Coherent decrypt log v) (ids : List MessageId) :
    Coherent decrypt log (v.hideMessages ids) := by
  have hsub : v.hidden ⊆ (v.hideMessages ids).hidden := List.subset_append_left _ _
  refine ⟨h.tidy, fun t ht => (h.fits t ht).mono rfl hsub, h.positions, h.acked, ?_, ?_⟩
  · intro m hm hflight hid
    exact (h.underway m hm hflight fun hmem => hid (hsub hmem)).frame (fun hm => hm)
      fun p b hp _ _ hold => hold hp
  · intro i hi hall
    obtain ⟨n, hn⟩ := h.settled i (fun hmem => hi (hsub hmem)) hall
    exact ⟨n, hn.synced, hn.told, hn.own, hn.pending, hn.edits, hn.entries⟩

/-! ### The room's topic -/

/-- The position of a broadcast that has been received is below the count. -/
theorem Fits.position_lt (h : Fits decrypt log v t) (hp : t.position = some p) : p < v.received := by
  cases t with
  | newMessage position w timestamp =>
      obtain rfl := Option.some.inj hp
      exact h.1
  | edited position e editedAtMs =>
      obtain rfl := Option.some.inj hp
      exact h.1
  | syncMessage => cases hp
  | done => cases hp

/-- A broadcast is taken up for decryption. -/
theorem Coherent.takeUp (hlog : SoundLog decrypt log) (h : Coherent decrypt log v)
    {b : Broadcast Cipher} (hb : log[v.received]? = some b) (hkept : ∀ id, b ≠ .deleted id)
    (hposition : t.position = some v.received)
    (hfits : Fits decrypt log { v with received := v.received + 1 } t) :
    Coherent decrypt log ({ v with received := v.received + 1 }.spawn t) := by
  have hpending : ∀ q, (q < v.received → Pending v q) → q < v.received + 1 →
      Pending ({ v with received := v.received + 1 }.spawn t) q := by
    intro q hold hq
    rcases Nat.lt_succ_iff_lt_or_eq.mp hq with hlt | rfl
    · obtain ⟨t', ht', hp⟩ := hold hlt
      exact ⟨t', List.mem_append.mpr (.inl ht'), hp⟩
    · exact ⟨t, List.mem_append.mpr (.inr List.mem_cons_self), hposition⟩
  refine ⟨h.tidy, ?_, ?_, h.acked, ?_, ?_⟩
  · intro t' ht'
    rcases List.mem_append.mp ht' with ht' | ht'
    · have hold := h.fits t' ht'
      cases t' with
      | newMessage position w timestamp =>
          obtain ⟨hlt, hcreated, hstamp, hnot⟩ := hold
          refine ⟨Nat.lt_succ_of_lt hlt, hcreated, hstamp, fun q hq hdeleted => ?_⟩
          rcases Nat.lt_succ_iff_lt_or_eq.mp hq with hq | rfl
          · exact hnot q hq hdeleted
          · exact hkept _ (Option.some.inj (hb.symm.trans hdeleted))
      | edited position e editedAtMs =>
          obtain ⟨hlt, hrest⟩ := hold
          exact ⟨Nat.lt_succ_of_lt hlt, hrest⟩
      | syncMessage => exact hold
      | done => trivial
    · obtain rfl := List.mem_singleton.mp ht'
      exact hfits
  · show ((v.tasks ++ [t]).filterMap Task.position).Nodup
    rw [List.filterMap_append, List.filterMap_cons, hposition]
    refine List.Nodup.append h.positions (List.nodup_singleton _) ?_
    intro q hq hq'
    obtain ⟨t', ht', hp⟩ := List.mem_filterMap.mp hq
    have hlt := (h.fits t' ht').position_lt hp
    have he : q = v.received := List.mem_singleton.mp hq'
    omega
  · intro m hm hflight hid
    exact (h.underway m hm hflight hid).frame (fun hm => hm)
      fun q _ hq _ _ hold => hpending q hold hq
  · intro id hid hall
    obtain ⟨n, hn⟩ := h.settled id hid hall
    refine ⟨n, hn.frame rfl ?_ (fun hm => hm) ?_ (fun q _ hq _ _ hold => hpending q hold hq) ?_
      fun _ => Iff.rfl⟩
    · exact told_mono (Nat.le_succ _) (Nat.le_refl _) fun hmem => hmem
    · rintro ⟨t', ht', hbrings⟩
      exact ⟨t', List.mem_append.mpr (.inl ht'), hbrings⟩
    · intro q e editedAtMs ht' heid hlt
      rcases List.mem_append.mp ht' with ht' | ht'
      · exact .inl ht'
      · -- An edit that a snapshot has reflected before it came.
        right
        obtain rfl := List.mem_singleton.mp ht'
        obtain rfl : q = v.received := Option.some.inj hposition
        obtain ⟨-, hedited, -⟩ := hfits
        have htold := hn.told
        unfold View.told at htold
        by_cases hacked : id ∈ v.acked
        · rw [if_pos hacked] at htold
          obtain ⟨c, w, hc, hcreated, hwid⟩ := hlog.follows hedited
          have hwid' : w.messageId = id := hwid.trans heid
          have hat := createdAt_eq hlog hcreated
          have hne : c ≠ v.received := by
            rintro rfl
            rw [hedited] at hcreated
            cases hcreated
          rw [hwid'] at hat
          omega
        · rw [if_neg hacked] at htold
          omega

theorem Coherent.arriving (h : Coherent decrypt log v) {w : WireMessage Cipher}
    (hp : Pending v p) (hcreated : log[p]? = some (.created w)) : Arriving v w.messageId := by
  obtain ⟨t, ht, hposition⟩ := hp
  have hfits := h.fits t ht
  cases t with
  | newMessage position w' timestamp =>
      obtain rfl := Option.some.inj hposition
      have hw : w' = w := by
        have heq := hfits.2.1.symm.trans hcreated
        cases heq
        rfl
      exact ⟨_, ht, by rw [← hw]; rfl⟩
  | edited position e editedAtMs =>
      obtain rfl := Option.some.inj hposition
      have heq := hfits.2.1.symm.trans hcreated
      cases heq
  | syncMessage => cases hposition
  | done => cases hposition

/-- An own message on its way that has been broadcast is being decrypted. -/
theorem Coherent.arriving_of_underway (hlog : SoundLog decrypt log) (h : Coherent decrypt log v)
    (hm : Underway decrypt log v m) {b : Broadcast Cipher} (hb : log[p]? = some b)
    (hid : b.messageId = m.id) (hlt : p < v.received) : Arriving v m.id := by
  obtain ⟨c, w, hc, hcreated, hwid⟩ := hlog.follows hb
  have hpending := hm.pending c _ (by omega) hcreated (hwid.trans hid)
  exact hwid.trans hid ▸ h.arriving hpending hcreated

/-- A deletion is handled. -/
theorem Coherent.delete (hlog : SoundLog decrypt log) (h : Coherent decrypt log v)
    (hb : log[v.received]? = some (.deleted id)) (hnot : ¬ Arriving v id) :
    Coherent decrypt log ({ v with received := v.received + 1 }.removeMessage id) := by
  -- The deletion is about no other message.
  have hothers : ∀ {id' : MessageId} {q : Nat} {b : Broadcast Cipher}, id' ≠ id →
      q < v.received + 1 → log[q]? = some b → b.messageId = id' →
      (q < v.received → Pending v q) → Pending v q := by
    intro id' q b hne hq hget hid' hold
    rcases Nat.lt_succ_iff_lt_or_eq.mp hq with hlt | rfl
    · exact hold hlt
    · obtain rfl := Option.some.inj (hb.symm.trans hget)
      exact absurd hid'.symm hne
  refine ⟨h.tidy.filter _, ?_, h.positions, h.acked, ?_, ?_⟩
  · intro t ht
    have hold := h.fits t ht
    cases t with
    | newMessage position w timestamp =>
        obtain ⟨hlt, hcreated, hstamp, hkept⟩ := hold
        refine ⟨Nat.lt_succ_of_lt hlt, hcreated, hstamp, fun q hq hdeleted => ?_⟩
        rcases Nat.lt_succ_iff_lt_or_eq.mp hq with hq | rfl
        · exact hkept q hq hdeleted
        · refine hnot ⟨_, ht, ?_⟩
          have heq := hb.symm.trans hdeleted
          cases heq
          rfl
    | edited position e editedAtMs =>
        obtain ⟨hlt, hrest⟩ := hold
        exact ⟨Nat.lt_succ_of_lt hlt, hrest⟩
    | syncMessage => exact hold
    | done => trivial
  · intro m hm hflight hid
    obtain ⟨hm, hne⟩ := mem_removeIds.mp hm
    exact (h.underway m hm hflight hid).frame (fun hm => hm)
      fun q b hq hget hmid hold =>
        hothers (fun he => hne (List.mem_singleton.mpr he)) hq hget hmid hold
  · intro id' hid hall
    by_cases hne : id' = id
    · subst hne
      have hsettled : ∀ m ∈ v.messages, m.id = id' → inFlight m = false := by
        intro m hm hmid
        by_contra hflight
        have hunderway := h.underway m hm (Bool.eq_true_of_not_eq_false hflight) (hmid ▸ hid)
        obtain ⟨c, w, hc, hcreated, hwid⟩ := hlog.follows hb
        have hlt : c < v.received := by
          rcases Nat.lt_or_eq_of_le hc with hlt | rfl
          · exact hlt
          · rw [hb] at hcreated
            cases hcreated
        have hwid' : w.messageId = m.id := hwid.trans hmid.symm
        exact hnot (hmid ▸ h.arriving_of_underway hlog hunderway hcreated hwid' hlt)
      obtain ⟨n, hn⟩ := h.settled id' hid hsettled
      have hgone : ∀ x, ¬ Shown (removeIds v.messages [id']) id' x :=
        fun x hx => (shown_removeIds.mp hx).1 rfl
      refine ⟨max n (v.received + 1), ?_, ?_, ?_, ?_, ?_, ?_⟩
      · exact Nat.le_trans hn.synced (Nat.le_max_left ..)
      · refine Nat.max_le.mpr ⟨hn.told.trans ?_, ?_⟩
        · exact told_mono (Nat.le_succ _) (Nat.le_refl _) fun hmem => hmem
        · exact Nat.le_trans (Nat.le_max_left ..) (Nat.le_max_left ..)
      · intro hown q w hq hwid
        have hlt := (hn.own hown q w hq hwid).resolve_right hnot
        exact .inl (Nat.lt_of_lt_of_le hlt (Nat.le_max_left ..))
      · intro q b hle hq
        have hle' := Nat.le_trans (Nat.le_max_right n _) hle
        exact absurd hq (Nat.not_lt.mpr hle')
      · rintro ⟨x, hx⟩
        exact absurd hx (hgone x)
      · intro x
        refine ⟨fun hx => absurd hx (hgone x), ?_⟩
        rintro ⟨w, hw, hwid, -⟩
        have hlt : v.received < max n (v.received + 1) := by omega
        exact absurd hw (not_mem_of_deleted hlog hb hlt hwid)
    · have hsettled : ∀ m ∈ v.messages, m.id = id' → inFlight m = false := by
        intro m hm hmid
        refine hall m (mem_removeIds.mpr ⟨hm, fun hmem => hne ?_⟩) hmid
        exact hmid.symm.trans (List.mem_singleton.mp hmem)
      obtain ⟨n, hn⟩ := h.settled id' hid hsettled
      refine ⟨n, hn.frame rfl (told_mono (Nat.le_succ _) (Nat.le_refl _) fun hmem => hmem)
        (fun hm => hm) (fun hm => hm)
        (fun q b hq hget hmid hold => hothers hne hq hget hmid hold)
        (fun q e editedAtMs ht _ _ => .inl ht) fun x => ?_⟩
      exact shown_removeIds.trans ⟨fun hx => hx.2, fun hx => ⟨hne, hx⟩⟩

/-- A message that is hidden when its broadcast comes is not decrypted. -/
theorem Coherent.skip (h : Coherent decrypt log v) {w : WireMessage Cipher}
    (hb : log[v.received]? = some (.created w)) :
    Coherent decrypt log ({ v with received := v.received + 1 }.hideMessages [w.messageId]) := by
  have hsub : v.hidden ⊆ v.hidden ++ [w.messageId] := List.subset_append_left _ _
  have hothers : ∀ {id' : MessageId} {q : Nat} {b : Broadcast Cipher},
      id' ∉ v.hidden ++ [w.messageId] → q < v.received + 1 → log[q]? = some b →
      b.messageId = id' → (q < v.received → Pending v q) → Pending v q := by
    intro id' q b hid hq hget hid' hold
    rcases Nat.lt_succ_iff_lt_or_eq.mp hq with hlt | rfl
    · exact hold hlt
    · obtain rfl := Option.some.inj (hb.symm.trans hget)
      exact absurd (List.mem_append.mpr (.inr (List.mem_singleton.mpr hid'.symm))) hid
  refine ⟨h.tidy, ?_, h.positions, h.acked, ?_, ?_⟩
  · intro t ht
    have hold := h.fits t ht
    cases t with
    | newMessage position w' timestamp =>
        obtain ⟨hlt, hcreated, hstamp, hkept⟩ := hold
        refine ⟨Nat.lt_succ_of_lt hlt, hcreated, hstamp, fun q hq hdeleted => ?_⟩
        rcases Nat.lt_succ_iff_lt_or_eq.mp hq with hq | rfl
        · exact hkept q hq hdeleted
        · rw [hb] at hdeleted
          cases hdeleted
    | edited position e editedAtMs =>
        obtain ⟨hlt, hrest⟩ := hold
        exact ⟨Nat.lt_succ_of_lt hlt, hrest⟩
    | syncMessage upTo w' timestamp rest decrypted =>
        exact ⟨hold.1, hold.2.mono hsub⟩
    | done => trivial
  · intro m hm hflight hid
    exact (h.underway m hm hflight fun hmem => hid (hsub hmem)).frame (fun hm => hm)
      fun q b hq hget hmid hold => hothers hid hq hget hmid hold
  · intro id' hid hall
    obtain ⟨n, hn⟩ := h.settled id' (fun hmem => hid (hsub hmem)) hall
    exact ⟨n, hn.frame rfl (told_mono (Nat.le_succ _) (Nat.le_refl _) fun hmem => hmem)
      (fun hm => hm) (fun hm => hm)
      (fun q b hq hget hmid hold => hothers hid hq hget hmid hold)
      (fun q e editedAtMs ht _ _ => .inl ht) fun _ => Iff.rfl⟩

theorem toEpochMs_eq_stamp {w : WireMessage Cipher}
    (h : (w.clientTimestamp.or w.serverTimestamp).isSome = true) (now : Nat) :
    toEpochMs w.clientTimestamp w.serverTimestamp now = stamp w := by
  obtain ⟨k, hk⟩ := Option.isSome_iff_exists.mp h
  unfold stamp toEpochMs
  rw [hk]
  rfl

theorem Coherent.broadcast (hlog : SoundLog decrypt log) (h : Coherent decrypt log v)
    {b : Broadcast Cipher} (hb : log[v.received]? = some b) (ho : BroadcastOrderly v a b) :
    Coherent decrypt log
      (View.handleBroadcast a { v with received := v.received + 1 } v.received b) := by
  cases b with
  | created w =>
      have hkey : a.hasKey = true := ho
      simp only [View.handleBroadcast, View.handleNewMessage, hkey, Bool.not_true,
        Bool.false_eq_true, if_false]
      have hstamp := toEpochMs_eq_stamp (hlog.created hb).2 a.now
      by_cases hskip : a.shouldSkip w.messageId = true
      · rw [if_pos hskip]
        exact h.skip hb
      · rw [if_neg hskip]
        refine h.takeUp hlog hb (fun _ he => by cases he) rfl ?_
        refine ⟨Nat.lt_succ_self _, hb, hstamp, fun q hq hdeleted => ?_⟩
        have hle := hlog.created_le hdeleted hb rfl
        have he : q = v.received := by
          have hq : q < v.received + 1 := hq
          omega
        subst he
        rw [hb] at hdeleted
        cases hdeleted
  | edited e =>
      have hkey : a.hasKey = true := ho
      simp only [View.handleBroadcast, View.applyRoomEditFromBroadcast, hkey, Bool.not_true,
        Bool.false_eq_true, if_false]
      refine h.takeUp hlog hb (fun _ he => by cases he) rfl ?_
      refine ⟨Nat.lt_succ_self _, hb, ?_⟩
      obtain ⟨k, hk⟩ := Option.isSome_iff_exists.mp (hlog.edited hb).1
      rw [hk]
      rfl
  | deleted id => exact h.delete hlog hb ho

/-! ### One message -/

theorem shown_congr {l l' : List DecryptedMessage} {x : Entry}
    (h : ∀ m, m.id = id → (m ∈ l' ↔ m ∈ l)) : Shown l' id x ↔ Shown l id x := by
  constructor
  · rintro ⟨m, hm, hid, hx⟩
    exact ⟨m, (h m hid).mp hm, hid, hx⟩
  · rintro ⟨m, hm, hid, hx⟩
    exact ⟨m, (h m hid).mpr hm, hid, hx⟩

variable (log v v') in
/-- What is known of a message stays as it is. -/
structure Untouched (id : MessageId) : Prop where
  told : v.told log id ≤ v'.told log id
  own : id ∈ v'.own ↔ id ∈ v.own
  arriving : Arriving v id → Arriving v' id
  pending : ∀ p b, p < v'.received → log[p]? = some b → b.messageId = id →
    (p < v.received → Pending v p) → Pending v' p
  edits : ∀ p e editedAtMs, .edited p e editedAtMs ∈ v'.tasks → e.messageId = id →
    .edited p e editedAtMs ∈ v.tasks
  messages : ∀ m, m.id = id → (m ∈ v'.messages ↔ m ∈ v.messages)

/-- A step that touches one message only. -/
theorem Coherent.touch (h : Coherent decrypt log v) (id : MessageId) (htidy : Tidy v'.messages)
    (hfits : ∀ t ∈ v'.tasks, Fits decrypt log v' t)
    (hpositions : (v'.tasks.filterMap Task.position).Nodup) (hacked : v'.acked ⊆ v'.own)
    (hhidden : v'.hidden = v.hidden) (hsynced : v'.synced = v.synced)
    (hothers : ∀ id' ≠ id, Untouched log v v' id')
    (hunderway : id ∉ v.hidden → ∀ m ∈ v'.messages, m.id = id → inFlight m = true →
      Underway decrypt log v' m)
    (hsettled : id ∉ v.hidden → (∀ m ∈ v'.messages, m.id = id → inFlight m = false) →
      ∃ n, ShowsAt decrypt log v' id n) : Coherent decrypt log v' := by
  refine ⟨htidy, hfits, hpositions, hacked, ?_, ?_⟩
  · intro m hm hflight hid
    rw [hhidden] at hid
    by_cases hne : m.id = id
    · exact hunderway (hne ▸ hid) m hm hne hflight
    · have hother := hothers m.id hne
      have hold := h.underway m ((hother.messages m rfl).mp hm) hflight hid
      exact hold.frame hother.own.mpr hother.pending
  · intro id' hid hall
    rw [hhidden] at hid
    by_cases hne : id' = id
    · subst hne
      exact hsettled hid hall
    · have hother := hothers id' hne
      obtain ⟨n, hn⟩ := h.settled id' hid fun m hm hmid =>
        hall m ((hother.messages m hmid).mpr hm) hmid
      refine ⟨n, hn.frame hsynced hother.told hother.own.mp hother.arriving hother.pending ?_
        fun x => shown_congr hother.messages⟩
      intro p e editedAtMs ht heid _
      exact .inl (hother.edits p e editedAtMs ht heid)

/-! ### Decryptions -/

section Tasks

variable {i : Nat}

theorem filterMap_set_sublist {α β : Type} {f : α → Option β} {x : α} (hx : f x = none)
    (l : List α) (i : Nat) : ((l.set i x).filterMap f).Sublist (l.filterMap f) := by
  induction l generalizing i with
  | nil => exact List.Sublist.refl _
  | cons y l ih =>
      cases i with
      | zero =>
          rw [List.set_cons_zero, List.filterMap_cons_none hx]
          exact (List.sublist_cons_self y l).filterMap f
      | succ i =>
          rw [List.set_cons_succ]
          cases hy : f y with
          | none =>
              rw [List.filterMap_cons_none hy, List.filterMap_cons_none hy]
              exact ih i
          | some b =>
              rw [List.filterMap_cons_some hy, List.filterMap_cons_some hy]
              exact (ih i).cons_cons b

/-- Every other task is still there. -/
theorem mem_set_of_ne {t' t'' : Task Cipher} (ht : v.tasks[i]? = some t) (ht' : t' ∈ v.tasks)
    (hne : t' ≠ t) : t' ∈ v.tasks.set i t'' := by
  obtain ⟨j, hj⟩ := List.mem_iff_getElem?.mp ht'
  have hij : i ≠ j := by
    rintro rfl
    exact hne (Option.some.inj (hj.symm.trans ht))
  refine List.mem_iff_getElem?.mpr ⟨j, ?_⟩
  rw [List.getElem?_set_ne hij, hj]

/-- The tasks change, but the same broadcasts are being decrypted. -/
theorem Coherent.retask (h : Coherent decrypt log v) {tasks : List (Task Cipher)}
    (hfits : ∀ t ∈ tasks, Fits decrypt log v t)
    (hpositions : (tasks.filterMap Task.position).Nodup)
    (hsame : ∀ t, t.position.isSome = true → (t ∈ tasks ↔ t ∈ v.tasks)) :
    Coherent decrypt log { v with tasks } := by
  have hpending : ∀ p, Pending v p → Pending { v with tasks } p := by
    rintro p ⟨t, ht, hp⟩
    exact ⟨t, (hsame t (by rw [hp]; rfl)).mpr ht, hp⟩
  refine ⟨h.tidy, hfits, hpositions, h.acked, ?_, ?_⟩
  · intro m hm hflight hid
    exact (h.underway m hm hflight hid).frame (fun hm => hm) fun p b hp _ _ hold =>
      hpending p (hold hp)
  · intro id hid hall
    obtain ⟨n, hn⟩ := h.settled id hid hall
    refine ⟨n, hn.frame rfl (Nat.le_refl _) (fun hm => hm) ?_
      (fun p b hp _ _ hold => hpending p (hold hp)) ?_ fun _ => Iff.rfl⟩
    · rintro ⟨t, ht, hbrings⟩
      cases t with
      | newMessage position w timestamp => exact ⟨_, (hsame _ rfl).mpr ht, hbrings⟩
      | _ => cases hbrings
    · intro p e editedAtMs ht _ _
      exact .inl ((hsame _ rfl).mp ht)

/-- A task without a broadcast goes on. -/
theorem Coherent.setTask (h : Coherent decrypt log v) {t' : Task Cipher}
    (ht : v.tasks[i]? = some t) (hnone : t.position = none) (hfits : Fits decrypt log v t')
    (hnone' : t'.position = none) : Coherent decrypt log { v with tasks := v.tasks.set i t' } := by
  refine h.retask ?_ (h.positions.sublist (filterMap_set_sublist hnone' _ _)) ?_
  · intro t'' ht''
    rcases List.mem_or_eq_of_mem_set ht'' with ht'' | rfl
    · exact h.fits t'' ht''
    · exact hfits
  · intro t'' hsome
    constructor
    · intro ht''
      rcases List.mem_or_eq_of_mem_set ht'' with ht'' | rfl
      · exact ht''
      · rw [hnone'] at hsome
        cases hsome
    · intro ht''
      refine mem_set_of_ne ht ht'' ?_
      rintro rfl
      rw [hnone] at hsome
      cases hsome

theorem Coherent.spawn (h : Coherent decrypt log v) (hfits : Fits decrypt log v t)
    (hnone : t.position = none) : Coherent decrypt log (v.spawn t) := by
  refine h.retask ?_ ?_ ?_
  · intro t' ht'
    rcases List.mem_append.mp ht' with ht' | ht'
    · exact h.fits t' ht'
    · obtain rfl := List.mem_singleton.mp ht'
      exact hfits
  · rw [List.filterMap_append, List.filterMap_cons_none hnone, List.filterMap_nil,
      List.append_nil]
    exact h.positions
  · intro t' hsome
    refine ⟨fun ht' => ?_, fun ht' => List.mem_append.mpr (.inl ht')⟩
    rcases List.mem_append.mp ht' with ht' | ht'
    · exact ht'
    · obtain rfl := List.mem_singleton.mp ht'
      rw [hnone] at hsome
      cases hsome

end Tasks

/-! ### A broadcast is decrypted -/

section Finish

variable {i : Nat} {b : Broadcast Cipher} {messages : List DecryptedMessage}

/-- The view once a broadcast has been applied to the list. -/
def View.finish (v : View Cipher) (i : Nat) (messages : List DecryptedMessage) : View Cipher :=
  { v with messages, tasks := v.tasks.set i .done }

/-- The handler at a place has gone on. -/
def View.goOn (i : Nat) (r : View Cipher × Task Cipher) : View Cipher :=
  { r.1 with tasks := r.1.tasks.set i r.2 }

theorem pending_finish {q : Nat} (ht : v.tasks[i]? = some t) (hp : t.position = some p)
    (hq : Pending v q) (hne : q ≠ p) : Pending (v.finish i messages) q := by
  obtain ⟨t', ht', hq'⟩ := hq
  refine ⟨t', mem_set_of_ne ht ht' ?_, hq'⟩
  rintro rfl
  exact hne (Option.some.inj (hq'.symm.trans hp))

theorem mem_tasks_finish {t' : Task Cipher} (ht' : t' ∈ (v.finish i messages).tasks) :
    t' ∈ v.tasks ∨ t' = .done := List.mem_or_eq_of_mem_set ht'

/-- A broadcast is decrypted once. -/
theorem Coherent.not_pending_finish (h : Coherent decrypt log v) (ht : v.tasks[i]? = some t)
    (hp : t.position = some p) : ¬ Pending (v.finish i messages) p := by
  have hpositions := h.positions
  obtain ⟨hi, hget⟩ := List.getElem?_eq_some_iff.mp ht
  have hperm := (List.getElem_cons_eraseIdx_perm hi).symm.filterMap Task.position
  rw [hget, List.filterMap_cons_some hp] at hperm
  have hnot := (List.nodup_cons.mp (hperm.nodup_iff.mp hpositions)).1
  rintro ⟨t', ht', hp'⟩
  have hmem := (List.set_perm_cons_eraseIdx hi Task.done).mem_iff.mp ht'
  rcases List.mem_cons.mp hmem with rfl | hmem
  · cases hp'
  · exact hnot (List.mem_filterMap.mpr ⟨t', hmem, hp'⟩)

/-- What a decryption comes to touches its message only. -/
theorem Coherent.finish (h : Coherent decrypt log v) (ht : v.tasks[i]? = some t)
    (hp : t.position = some p) (hb : log[p]? = some b) (htidy : Tidy messages)
    (hmessages : ∀ m, m.id ≠ b.messageId → (m ∈ messages ↔ m ∈ v.messages))
    (hsettled : b.messageId ∉ v.hidden →
      (∀ m ∈ messages, m.id = b.messageId → inFlight m = false)
        ∧ ∃ n, ShowsAt decrypt log (v.finish i messages) b.messageId n) :
    Coherent decrypt log (v.finish i messages) := by
  refine h.touch b.messageId htidy ?_ (h.positions.sublist (filterMap_set_sublist rfl _ _)) h.acked
    rfl rfl ?_ ?_ fun hid _ => (hsettled hid).2
  · intro t' ht'
    rcases mem_tasks_finish ht' with ht' | rfl
    · exact (h.fits t' ht').mono rfl (fun _ hid => hid)
    · trivial
  · intro id hne
    refine ⟨Nat.le_refl _, Iff.rfl, ?_, ?_, ?_, fun m hm => hmessages m (hm ▸ hne)⟩
    · rintro ⟨t', ht', hbrings⟩
      refine ⟨t', mem_set_of_ne ht ht' ?_, hbrings⟩
      rintro rfl
      have hfits := h.fits t' ht'
      cases t' with
      | newMessage position w timestamp =>
          obtain rfl := Option.some.inj hp
          obtain rfl := Option.some.inj (hb.symm.trans hfits.2.1)
          exact hne (Option.some.inj hbrings).symm
      | _ => cases hbrings
    · intro q b' hq hget hid hold
      refine pending_finish ht hp (hold hq) ?_
      rintro rfl
      obtain rfl := Option.some.inj (hb.symm.trans hget)
      exact hne hid.symm
    · intro q e editedAtMs ht' _
      exact (mem_tasks_finish ht').resolve_right nofun
  · intro hid m hm hmid hflight
    have hnot := (hsettled hid).1 m hm hmid
    rw [hflight] at hnot
    cases hnot

/-- A broadcast that the shown message reflects already. -/
theorem ShowsAt.finish (hn : ShowsAt decrypt log v id n) (hlog : SoundLog decrypt log)
    (ht : v.tasks[i]? = some t) (hp : t.position = some p) (hlt : p < n) {c : Nat}
    {w : WireMessage Cipher} (hcreated : log[c]? = some (.created w)) (hwid : w.messageId = id)
    (hc : c < n) (hshown : ∀ x, Shown messages id x ↔ Shown v.messages id x) :
    ShowsAt decrypt log (v.finish i messages) id n := by
  refine ⟨hn.synced, hn.told, ?_, ?_, ?_, fun x => (hshown x).trans (hn.entries x)⟩
  · intro _ q w' hq hwid'
    rw [hlog.distinct hq hcreated (hwid'.trans hwid.symm)]
    exact .inl hc
  · intro q b hle hq hb hid
    exact pending_finish ht hp (hn.pending q b hle hq hb hid) (by omega)
  · rintro ⟨x, hx⟩ q e editedAtMs ht' heid hq
    exact hn.edits ⟨x, (hshown x).mp hx⟩ q e editedAtMs
      ((mem_tasks_finish ht').resolve_right nofun) heid hq

end Finish

/-! ### A new message -/

section NewMessage

variable {i : Nat} {w : WireMessage Cipher} {timestamp : Nat}

theorem confirm_of_ne (hne : m.id ≠ id) : confirm id m = m := if_neg fun h => hne h.1

theorem mem_confirm {l : List DecryptedMessage} (hne : m.id ≠ id) :
    m ∈ l.map (confirm id) ↔ m ∈ l := by
  have hid : ∀ m : DecryptedMessage, (confirm id m).id = m.id := fun m =>
    congrArg Entry.id (entry_confirm id m)
  constructor
  · intro hm
    obtain ⟨m', hm', rfl⟩ := List.mem_map.mp hm
    rw [hid] at hne
    rwa [confirm_of_ne hne]
  · intro hm
    exact List.mem_map.mpr ⟨m, hm, confirm_of_ne hne⟩

/-- A new message is inserted, unless its id is listed. -/
theorem resume_newMessage (htidy : Tidy v.messages) (hedited : w.editedAt = none) :
    v.resume decrypt a (.newMessage p w timestamp) = (v.setMessages
      (if has v.messages w.messageId then
        if (decrypt w.cipher).isSome then v.messages.map (confirm w.messageId) else v.messages
      else sortByTimestamp (v.messages ++ [View.decryptSynced decrypt w timestamp])), .done) := by
  cases hd : decrypt w.cipher with
  | none =>
      cases hhas : has v.messages w.messageId <;>
        simp [View.resume, hd, View.decryptSynced, hedited, insertNew, hhas]
  | some plaintext =>
      cases hhas : has v.messages w.messageId with
      | true => simp [View.resume, hd, insertBroadcast_of_has htidy, hhas]
      | false =>
          simp [View.resume, hd, insertBroadcast_of_not_has, hhas, View.decryptSynced, hedited]

/-- The server shows a message from its creation on. -/
theorem served_creation (hlog : SoundLog decrypt log) (hcreated : log[p]? = some (.created w))
    {x : Entry} : Served decrypt log (p + 1) w.messageId x ↔ x = wireEntry decrypt w := by
  constructor
  · rintro ⟨w', hw', hid, rfl⟩
    rw [(serverList_at_creation hlog hcreated hid).mp hw']
  · rintro rfl
    exact ⟨w, (serverList_at_creation hlog hcreated rfl).mpr rfl, rfl, rfl⟩

/-- Nothing is shown before its creation. -/
theorem Served.created_lt (hlog : SoundLog decrypt log) (hcreated : log[p]? = some (.created w))
    {x : Entry} (h : Served decrypt log n w.messageId x) : p < n := by
  obtain ⟨w', hw', hid, -⟩ := h
  obtain ⟨q, w₀, hq, hcreated₀, hid₀, -⟩ := created_of_mem hw'
  rwa [hlog.distinct hcreated hcreated₀ (hid.symm.trans hid₀.symm)]

/-- A message that is shown as it was created, and that nothing has been applied to since. -/
theorem showsAt_creation (hlog : SoundLog decrypt log) (hcreated : log[p]? = some (.created w))
    (hsynced : v.synced ≤ p) (htold : p + 1 ≤ v.told log w.messageId)
    (hpending : ∀ q b, p < q → q < v.received → log[q]? = some b → b.messageId = w.messageId →
      Pending v q)
    (hfits : ∀ t ∈ v.tasks, Fits decrypt log v t)
    (hshown : ∀ x, Shown v.messages w.messageId x ↔ x = wireEntry decrypt w) :
    ShowsAt decrypt log v w.messageId (p + 1) := by
  refine ⟨Nat.le_succ_of_le hsynced, htold, ?_, ?_, ?_, ?_⟩
  · intro _ q w' hq hwid
    rw [hlog.distinct hq hcreated hwid]
    exact .inl (Nat.lt_succ_self p)
  · intro q b hle hlt hb hid
    exact hpending q b hle hlt hb hid
  · intro _ q e editedAtMs ht heid hlt
    obtain ⟨-, hedited, -⟩ := hfits _ ht
    have hle := hlog.created_le hedited hcreated heid
    obtain rfl : q = p := by omega
    rw [hcreated] at hedited
    cases hedited
  · intro x
    rw [hshown, served_creation hlog hcreated]

/-- The message is listed already. -/
theorem Coherent.newMessage_listed (hlog : SoundLog decrypt log) (h : Coherent decrypt log v)
    (ht : v.tasks[i]? = some (.newMessage p w timestamp)) (ho : NewMessageOrderly v p w)
    (hhas : has v.messages w.messageId = true) :
    Coherent decrypt log (v.finish i
      (if (decrypt w.cipher).isSome then v.messages.map (confirm w.messageId)
        else v.messages)) := by
  obtain ⟨hreceived, hcreated, hstamp, hkept⟩ := h.fits _ (List.mem_of_getElem? ht)
  generalize hmessages : (if (decrypt w.cipher).isSome then v.messages.map (confirm w.messageId)
    else v.messages) = messages
  have hshown : ∀ {id x}, Shown messages id x ↔ Shown v.messages id x := by
    intro id x
    subst hmessages
    split
    · exact shown_map (entry_confirm _)
    · exact Iff.rfl
  refine h.finish ht rfl hcreated ?_ ?_ fun hid => ?_
  · subst hmessages
    split
    · exact h.tidy.map (fun m => congrArg Entry.id (entry_confirm _ m)) fun m =>
        congrArg Entry.timestamp (entry_confirm _ m)
    · exact h.tidy
  · intro m hne
    subst hmessages
    split
    · exact mem_confirm hne
    · exact Iff.rfl
  · by_cases hflight : ∃ m ∈ v.messages, m.id = w.messageId ∧ inFlight m = true
    · -- The own message has arrived.
      obtain ⟨m₀, hm₀, hid₀, hflight₀⟩ := hflight
      have hunderway := h.underway m₀ hm₀ hflight₀ (hid₀ ▸ hid)
      obtain ⟨hentry, hsending, hsome⟩ := hunderway.relayed p w hcreated hid₀.symm
      have hunique : ∀ m ∈ v.messages, m.id = w.messageId → m = m₀ := fun m hm hmid =>
        h.tidy.unique hm hm₀ (hmid.trans hid₀.symm)
      have hsynced : v.synced ≤ p := by
        by_contra hlt
        obtain ⟨m, hm, hmid, hnot⟩ := ho.resolve_left hid (Nat.lt_of_not_le hlt)
        rw [hunique m hm hmid, hflight₀] at hnot
        cases hnot
      refine ⟨fun m hm hmid => ?_, p + 1, ?_⟩
      · rw [← hmessages, if_pos hsome] at hm
        obtain ⟨m₁, hm₁, rfl⟩ := List.mem_map.mp hm
        have hid₁ := (congrArg Entry.id (entry_confirm w.messageId m₁)).symm.trans hmid
        rw [hunique m₁ hm₁ hid₁, confirm, if_pos ⟨hid₀, hsending⟩]
        rfl
      · refine showsAt_creation hlog hcreated hsynced ?_ ?_ ?_ ?_
        · exact Nat.le_trans hreceived received_le_told
        · intro q b hlt hq hb hbid
          exact pending_finish ht rfl (hunderway.pending q b hq hb (hbid.trans hid₀.symm))
            (Nat.ne_of_gt hlt)
        · intro t' ht'
          rcases mem_tasks_finish ht' with ht' | rfl
          · exact (h.fits t' ht').mono rfl (fun _ hid => hid)
          · trivial
        · intro x
          refine hshown.trans ⟨?_, ?_⟩
          · rintro ⟨m, hm, hmid, rfl⟩
            rw [hunique m hm hmid, hentry]
          · rintro rfl
            exact ⟨m₀, hm₀, hid₀, hentry⟩
    · have hnone : ∀ m ∈ v.messages, m.id = w.messageId → inFlight m = false := by
        intro m hm hmid
        by_contra hnot
        exact hflight ⟨m, hm, hmid, Bool.eq_true_of_not_eq_false hnot⟩
      obtain ⟨n, hn⟩ := h.settled w.messageId hid hnone
      obtain ⟨m₀, hm₀, hid₀⟩ := has_iff.mp hhas
      have hlt := ((hn.entries _).mp ⟨m₀, hm₀, hid₀, rfl⟩).created_lt hlog hcreated
      refine ⟨fun m hm hmid => ?_, n, hn.finish hlog ht rfl hlt hcreated rfl hlt fun _ => hshown⟩
      rw [← hmessages] at hm
      split at hm
      · obtain ⟨m₁, hm₁, rfl⟩ := List.mem_map.mp hm
        have hid₁ := (congrArg Entry.id (entry_confirm w.messageId m₁)).symm.trans hmid
        have hnot := hnone m₁ hm₁ hid₁
        rw [confirm, if_neg]
        · exact hnot
        · rintro ⟨-, hsending⟩
          simp [inFlight, hsending] at hnot
      · exact hnone m hm hmid

/-- The message is not listed. -/
theorem Coherent.newMessage_inserted (hlog : SoundLog decrypt log) (h : Coherent decrypt log v)
    (ht : v.tasks[i]? = some (.newMessage p w timestamp)) (ho : NewMessageOrderly v p w)
    (hhas : has v.messages w.messageId = false) :
    Coherent decrypt log (v.finish i
      (sortByTimestamp (v.messages ++ [View.decryptSynced decrypt w timestamp]))) := by
  obtain ⟨hreceived, hcreated, rfl, hkept⟩ := h.fits _ (List.mem_of_getElem? ht)
  have habsent : ∀ m ∈ v.messages, m.id ≠ w.messageId := by
    intro m hm hmid
    rw [has_iff.mpr ⟨m, hm, hmid⟩] at hhas
    cases hhas
  refine h.finish ht rfl hcreated (tidy_insert h.tidy hhas) ?_ fun hid => ⟨?_, p + 1, ?_⟩
  · intro m hne
    rw [mem_sortByTimestamp, List.mem_append, List.mem_singleton]
    refine ⟨fun hm => hm.resolve_right ?_, .inl⟩
    rintro rfl
    exact hne rfl
  · intro m hm hmid
    rcases List.mem_append.mp (mem_sortByTimestamp.mp hm) with hm | hm
    · exact absurd hmid (habsent m hm)
    · obtain rfl := List.mem_singleton.mp hm
      rfl
  · have hsynced : v.synced ≤ p := by
      by_contra hlt
      obtain ⟨m, hm, hmid, -⟩ := ho.resolve_left hid (Nat.lt_of_not_le hlt)
      exact habsent m hm hmid
    obtain ⟨n, hn⟩ := h.settled w.messageId hid fun m hm hmid => absurd hmid (habsent m hm)
    -- Were the message shown as of later than its creation, it would have been deleted.
    have hle : n ≤ p := by
      by_contra hlt
      obtain ⟨q, hq, -, hdeleted⟩ := exists_deleted hlog hcreated (Nat.lt_of_not_le hlt) (by
        intro w' hw' hwid
        obtain ⟨m, hm, hmid, -⟩ := (hn.entries (wireEntry decrypt w')).mpr ⟨w', hw', hwid, rfl⟩
        exact habsent m hm hmid)
      have htold := hn.told
      unfold View.told at htold
      rw [createdAt_eq hlog hcreated] at htold
      refine hkept q ?_ hdeleted
      split at htold <;> omega
    refine showsAt_creation hlog hcreated hsynced ?_ ?_ ?_ ?_
    · exact Nat.le_trans hreceived received_le_told
    · intro q b hlt hq hb hbid
      exact pending_finish ht rfl (hn.pending q b (by omega) hq hb hbid) (Nat.ne_of_gt hlt)
    · intro t' ht'
      rcases mem_tasks_finish ht' with ht' | rfl
      · exact (h.fits t' ht').mono rfl (fun _ hid => hid)
      · trivial
    · intro x
      refine shown_insert.trans ⟨?_, ?_⟩
      · rintro (hx | ⟨-, rfl⟩)
        · exact absurd hx (not_shown_of_not_has hhas)
        · rfl
      · rintro rfl
        exact .inr ⟨rfl, rfl⟩

theorem Coherent.newMessage (hlog : SoundLog decrypt log) (h : Coherent decrypt log v)
    (ht : v.tasks[i]? = some (.newMessage p w timestamp)) (ho : NewMessageOrderly v p w) :
    Coherent decrypt log (View.goOn i (v.resume decrypt a (.newMessage p w timestamp))) := by
  have hcreated := (h.fits _ (List.mem_of_getElem? ht)).2.1
  rw [resume_newMessage h.tidy (hlog.created hcreated).1]
  cases hhas : has v.messages w.messageId with
  | true => exact h.newMessage_listed hlog ht ho hhas
  | false => exact h.newMessage_inserted hlog ht ho hhas

end NewMessage

/-! ### An edit -/

section Edited

variable {i : Nat} {e : EditPayload Cipher} {editedAtMs : Nat} {plaintext : String}

theorem mem_applyEdit_of_ne {l : List DecryptedMessage} (hne : m.id ≠ id) :
    m ∈ applyEdit l id plaintext editedAtMs ↔ m ∈ l := by
  constructor
  · intro hm
    rcases mem_applyEdit hm with ⟨hm, -⟩ | ⟨m₀, -, hm₀, rfl⟩
    · exact hm
    · exact absurd hm₀ hne
  · intro hm
    exact List.mem_map.mpr ⟨m, hm, if_neg hne⟩

theorem wireEntry_edited (hd : decrypt e.cipher = some plaintext)
    (hat : e.editedAt = some editedAtMs) (w : WireMessage Cipher) :
    wireEntry decrypt { w with cipher := e.cipher, editedAt := e.editedAt }
      = (wireEntry decrypt w).edit plaintext editedAtMs := by
  simp [wireEntry, View.decryptSynced, entry, Entry.edit, hd, hat, stamp]

/-- The server applies an edit. -/
theorem served_edit (hedited : log[p]? = some (.edited e)) (hd : decrypt e.cipher = some plaintext)
    (hat : e.editedAt = some editedAtMs) {x : Entry} :
    Served decrypt log (p + 1) e.messageId x ↔
      ∃ y, Served decrypt log p e.messageId y ∧ x = y.edit plaintext editedAtMs := by
  have hlist := serverList_succ hedited
  constructor
  · rintro ⟨w, hw, hid, rfl⟩
    rw [hlist] at hw
    obtain ⟨w', hw', rfl⟩ := List.mem_map.mp hw
    by_cases he : w'.messageId = e.messageId
    · refine ⟨_, ⟨w', hw', he, rfl⟩, ?_⟩
      rw [if_pos he]
      exact wireEntry_edited hd hat w'
    · rw [if_neg he] at hid
      exact absurd hid he
  · rintro ⟨y, ⟨w, hw, hid, rfl⟩, rfl⟩
    refine ⟨{ w with cipher := e.cipher, editedAt := e.editedAt }, ?_, hid,
      wireEntry_edited hd hat w⟩
    rw [hlist]
    exact List.mem_map.mpr ⟨w, hw, if_pos hid⟩

/-- An edit that the server has applied changes nothing more, if no other one has followed. -/
theorem served_edited (hlog : SoundLog decrypt log) (hedited : log[p]? = some (.edited e))
    (hd : decrypt e.cipher = some plaintext) (hat : e.editedAt = some editedAtMs) (hlt : p < n)
    (hlast : ∀ q < n, p < q → ∀ b ∈ log[q]?, b.edits e.messageId = false) {x : Entry}
    (hx : Served decrypt log n e.messageId x) : x.edit plaintext editedAtMs = x := by
  obtain ⟨w, hw, hid, rfl⟩ := hx
  obtain ⟨hcipher, hat'⟩ := shows_edit hlog hedited hlt hlast hw hid
  rw [← wireEntry_edited hd hat, ← hcipher, ← hat']

theorem Coherent.edited (hlog : SoundLog decrypt log) (h : Coherent decrypt log v)
    (ht : v.tasks[i]? = some (.edited p e editedAtMs)) (ho : EditOrderly log v p e) :
    Coherent decrypt log (View.goOn i (v.resume decrypt a (.edited p e editedAtMs))) := by
  obtain ⟨hreceived, hedited, hat⟩ := h.fits _ (List.mem_of_getElem? ht)
  obtain ⟨plaintext, hd⟩ := Option.isSome_iff_exists.mp (hlog.edited hedited).2
  have hresume : v.resume decrypt a (.edited p e editedAtMs)
      = (v.setMessages (applyEdit v.messages e.messageId plaintext editedAtMs), .done) := by
    simp only [View.resume, hd]
  rw [hresume]
  refine h.finish ht rfl hedited (h.tidy.applyEdit ..) (fun m hne => mem_applyEdit_of_ne hne)
    fun hid => ?_
  obtain ⟨hbefore, hafter⟩ := ho.resolve_left hid
  obtain ⟨c, w, hc, hcreated, hwid⟩ := hlog.follows hedited
  have hcp : c < p := by
    refine Nat.lt_of_le_of_ne hc ?_
    rintro rfl
    rw [hedited] at hcreated
    cases hcreated
  -- What came before about the message has been applied.
  have happlied : ∀ q b, q < p → log[q]? = some b → b.messageId = e.messageId → ¬ Pending v q := by
    rintro q b hq hb hbid ⟨t, ht, htq⟩
    exact hbefore t ht q htq hq b hb hbid
  have hnone : ∀ m ∈ v.messages, m.id = e.messageId → inFlight m = false := by
    intro m hm hmid
    by_contra hnot
    have hunderway := h.underway m hm (Bool.eq_true_of_not_eq_false hnot) (hmid ▸ hid)
    exact happlied c _ hcp hcreated hwid
      (hunderway.pending c _ (by omega) hcreated (hwid.trans hmid.symm))
  obtain ⟨n, hn⟩ := h.settled e.messageId hid hnone
  have hcn : c < n := by
    by_contra hle
    exact happlied c _ hcp hcreated hwid
      (hn.pending c _ (Nat.le_of_not_lt hle) (by omega) hcreated hwid)
  refine ⟨fun m hm hmid => ?_, ?_⟩
  · rcases mem_applyEdit hm with ⟨-, hne⟩ | ⟨m₀, hm₀, hm₀id, rfl⟩
    · exact absurd hmid hne
    · exact hnone m₀ hm₀ hm₀id
  · have hshown : ∀ x, Shown (applyEdit v.messages e.messageId plaintext editedAtMs) e.messageId x
        ↔ ∃ y, Shown v.messages e.messageId y ∧ x = y.edit plaintext editedAtMs := fun x =>
      shown_applyEdit.trans (by rw [if_pos rfl])
    rcases Nat.lt_or_ge p n with hpn | hnp
    · -- A snapshot has brought the edit.
      refine ⟨n, hn.finish hlog ht rfl hpn hcreated hwid hcn fun x => (hshown x).trans ?_⟩
      have hsame : ∀ y, Shown v.messages e.messageId y → y.edit plaintext editedAtMs = y := by
        intro y hy
        have hle := hn.edits ⟨y, hy⟩ p e editedAtMs (List.mem_of_getElem? ht) rfl hpn
        refine served_edited hlog hedited hd hat hpn (fun q hq => ?_) ((hn.entries y).mp hy)
        exact hafter q (by omega)
      constructor
      · rintro ⟨y, hy, rfl⟩
        rwa [hsame y hy]
      · intro hx
        exact ⟨x, hx, (hsame x hx).symm⟩
    · -- The message is shown as of before the edit.
      have hserved : ∀ x, Served decrypt log p e.messageId x ↔
          Served decrypt log n e.messageId x := by
        intro x
        have hstable : ∀ w : WireMessage Cipher, w.messageId = e.messageId →
            (w ∈ serverList log p ↔ w ∈ serverList log n) := by
          intro w hw
          refine serverList_stable hnp hw fun q b hle hq hb hbid => ?_
          exact happlied q b hq hb hbid (hn.pending q b hle (by omega) hb hbid)
        constructor
        · rintro ⟨w, hw, hwid, hx⟩
          exact ⟨w, (hstable w hwid).mp hw, hwid, hx⟩
        · rintro ⟨w, hw, hwid, hx⟩
          exact ⟨w, (hstable w hwid).mpr hw, hwid, hx⟩
      refine ⟨p + 1, Nat.le_trans hn.synced (by omega), ?_, ?_, ?_, ?_, ?_⟩
      · exact Nat.le_trans hreceived received_le_told
      · intro _ q w' hq hwid'
        rw [hlog.distinct hq hcreated (hwid'.trans hwid.symm)]
        exact .inl (by omega)
      · intro q b hle hq hb hbid
        exact pending_finish ht rfl (hn.pending q b (by omega) hq hb hbid) (by omega)
      · -- No other edit up to this one is under way.
        intro _ q e' editedAtMs' ht' heid hq
        rcases Nat.lt_succ_iff_lt_or_eq.mp hq with hq | rfl
        · have ht₀ := (mem_tasks_finish ht').resolve_right nofun
          obtain ⟨-, hedited', -⟩ := h.fits _ ht₀
          exact absurd ⟨_, ht₀, rfl⟩ (happlied q _ hq hedited' heid)
        · exact absurd ⟨_, ht', rfl⟩ (h.not_pending_finish ht rfl)
      · intro x
        refine (hshown x).trans (.trans (exists_congr fun y => ?_)
          (served_edit hedited hd hat).symm)
        rw [hn.entries, hserved]

end Edited

/-! ### A snapshot -/

section Snapshot

variable {upTo i : Nat} {rest : List (WireMessage Cipher)} {decrypted : List DecryptedMessage}

theorem synced_start (upTo : Nat) : Synced decrypt log v upTo [] (serverList log upTo) :=
  ⟨[], [], rfl, List.Sublist.refl _, rfl, nofun⟩

theorem Synced.skip {w : WireMessage Cipher} (h : Synced decrypt log v upTo decrypted (w :: rest)) :
    Synced decrypt log (v.hideMessages [w.messageId]) upTo decrypted rest := by
  obtain ⟨before, kept, hlist, hsub, hdecrypted, hall⟩ := h
  refine ⟨before ++ [w], kept, ?_, ?_, hdecrypted, ?_⟩
  · rw [hlist, List.append_assoc]
    rfl
  · exact hsub.trans (List.sublist_append_left ..)
  · intro w' hw'
    rcases List.mem_append.mp hw' with hw' | hw'
    · exact (hall w' hw').imp_right fun hid => List.mem_append.mpr (.inl hid)
    · obtain rfl := List.mem_singleton.mp hw'
      exact .inr (List.mem_append.mpr (.inr List.mem_cons_self))

theorem Synced.take {w : WireMessage Cipher}
    (h : Synced decrypt log v upTo decrypted (w :: rest)) :
    Synced decrypt log v upTo (decrypted ++ [View.decryptSynced decrypt w (stamp w)]) rest := by
  obtain ⟨before, kept, hlist, hsub, rfl, hall⟩ := h
  refine ⟨before ++ [w], kept ++ [w], ?_, hsub.append_right [w], ?_, ?_⟩
  · rw [hlist, List.append_assoc]
    rfl
  · rw [List.map_append]
    rfl
  · intro w' hw'
    rcases List.mem_append.mp hw' with hw' | hw'
    · exact (hall w' hw').imp_left fun hkept => List.mem_append.mpr (.inl hkept)
    · exact .inl (List.mem_append.mpr (.inr hw'))

theorem SnapshotOrderly.mono (h : SnapshotOrderly log v upTo) (hsynced : v'.synced = v.synced)
    (hreceived : v'.received = v.received) (hacked : v'.acked = v.acked)
    (htasks : v'.tasks = v.tasks) (hhidden : v.hidden ⊆ v'.hidden) :
    SnapshotOrderly log v' upTo := by
  obtain ⟨hle, hpending, harriving⟩ := h
  refine ⟨hsynced ▸ hle, ?_, ?_⟩
  · intro p hp hup b hb
    rw [hreceived] at hp
    refine (hpending p hp hup b hb).imp (fun hid => hhidden hid) ?_
    rintro ⟨t, ht, hposition⟩
    exact ⟨t, htasks ▸ ht, hposition⟩
  · intro id hid
    rw [hacked] at hid
    refine (harriving id hid).imp (fun hid => hhidden hid) (Or.imp_right ?_)
    rintro ⟨t, ht, hbrings⟩
    exact ⟨t, htasks ▸ ht, hbrings⟩

/-- What a snapshot leaves in the list. -/
theorem mem_applySnapshot {kept : List (WireMessage Cipher)} :
    m ∈ (v.applySnapshot upTo (kept.map fun w => View.decryptSynced decrypt w (stamp w))).messages
      ↔ (∃ w ∈ kept, View.decryptSynced decrypt w (stamp w) = m)
        ∨ ((m ∈ v.messages ∧ inFlight m = true) ∧ ∀ w ∈ kept, w.messageId ≠ m.id) := by
  simp [View.applySnapshot, View.setMessages, View.decryptSynced, and_assoc]

theorem tidy_applySnapshot {kept : List (WireMessage Cipher)} (h : Tidy v.messages)
    (hids : (kept.map (·.messageId)).Nodup) : Tidy (v.applySnapshot upTo
      (kept.map fun w => View.decryptSynced decrypt w (stamp w))).messages := by
  refine tidy_sort ?_
  rw [List.map_append]
  refine List.Nodup.append ?_ (h.ids.sublist (List.filter_sublist.map _)) ?_
  · rw [List.map_map]
    exact hids
  · intro id hid hid'
    obtain ⟨m, hm, rfl⟩ := List.mem_map.mp hid'
    have hnot := (Bool.and_eq_true_iff.mp (List.mem_filter.mp hm).2).2
    exact of_decide_eq_true hnot hid

/-- The snapshot takes the place of the list. -/
theorem Coherent.applySnapshot (hlog : SoundLog decrypt log) (h : Coherent decrypt log v)
    (hs : Synced decrypt log v upTo decrypted []) (ho : SnapshotOrderly log v upTo) :
    Coherent decrypt log (v.applySnapshot upTo decrypted) := by
  obtain ⟨before, kept, hlist, hsub, rfl, hall⟩ := hs
  rw [List.append_nil] at hlist
  subst hlist
  obtain ⟨hsynced, hpending, hacked⟩ := ho
  have hmax : max v.synced upTo = upTo := Nat.max_eq_right hsynced
  have hids := (serverList_nodup hlog upTo).sublist (hsub.map (·.messageId))
  refine ⟨tidy_applySnapshot h.tidy hids, fun t ht => (h.fits t ht).mono rfl fun _ hid => hid,
    h.positions, h.acked, ?_, ?_⟩
  · intro m hm hflight hid
    rcases mem_applySnapshot.mp hm with ⟨w, -, rfl⟩ | ⟨⟨hm, -⟩, -⟩
    · cases hflight
    · exact (h.underway m hm hflight hid).frame (fun hm => hm) fun p b hp _ _ hold => hold hp
  · intro id hid hsettled
    refine ⟨upTo, hmax.le, ?_, ?_, ?_, ?_, ?_⟩
    · refine Nat.le_trans ?_ (Nat.le_max_left ..)
      exact Nat.le_trans (Nat.le_max_right v.synced upTo) (Nat.le_max_right ..)
    · -- A creation that the snapshot does not reflect is still being decrypted.
      intro hown c w hcreated hwid
      by_cases hflight : ∃ m ∈ v.messages, m.id = id ∧ inFlight m = true
      · obtain ⟨m, hm, hmid, hflight⟩ := hflight
        by_cases hkept : ∃ w ∈ kept, w.messageId = m.id
        · obtain ⟨w', hw', hwid'⟩ := hkept
          obtain ⟨q, w₀, hq, hcreated₀, hid₀, -⟩ := created_of_mem (hsub.subset hw')
          rw [hlog.distinct hcreated hcreated₀
            (hwid.trans (hmid.symm.trans (hwid'.symm.trans hid₀.symm)))]
          exact .inl hq
        · have hnot := hsettled m (mem_applySnapshot.mpr (.inr ⟨⟨hm, hflight⟩,
            fun w' hw' hwid' => hkept ⟨w', hw', hwid'⟩⟩)) hmid
          rw [hflight] at hnot
          cases hnot
      · obtain ⟨n, hn⟩ := h.settled id hid fun m hm hmid => by
          by_contra hnot
          exact hflight ⟨m, hm, hmid, Bool.eq_true_of_not_eq_false hnot⟩
        rcases hn.own hown c w hcreated hwid with hlt | harriving
        · rcases Nat.lt_or_ge c upTo with hup | hup
          · exact .inl hup
          · refine .inr ?_
            by_cases hreceived : c < v.received
            · have hp := (hpending c hreceived hup _ hcreated).resolve_left
                (fun hmem => hid (hwid ▸ hmem))
              exact hwid ▸ h.arriving hp hcreated
            · have htold := hn.told
              have hat := createdAt_eq hlog hcreated
              rw [hwid] at hat
              unfold View.told at htold
              by_cases hmem : id ∈ v.acked
              · rcases (hacked id hmem).resolve_left hid with hle | harriving
                · omega
                · exact harriving
              · rw [if_neg hmem] at htold
                omega
        · exact .inr harriving
    · intro q b hle hq hb hbid
      exact (hpending q hq hle b hb).resolve_left fun hmem => hid (hbid ▸ hmem)
    · intro _ q e editedAtMs _ _ _
      exact Nat.le_max_right ..
    · intro x
      constructor
      · rintro ⟨m, hm, hmid, rfl⟩
        have hnot := hsettled m hm hmid
        rcases mem_applySnapshot.mp hm with ⟨w, hw, rfl⟩ | ⟨⟨-, hflight⟩, -⟩
        · exact ⟨w, hsub.subset hw, hmid, rfl⟩
        · rw [hflight] at hnot
          cases hnot
      · rintro ⟨w, hw, hwid, rfl⟩
        have hkept := (hall w hw).resolve_right fun hmem => hid (hwid ▸ hmem)
        exact ⟨_, mem_applySnapshot.mpr (.inl ⟨w, hkept, rfl⟩), hwid, rfl⟩

/-- A snapshot goes on to its next decryption, or is applied. -/
theorem Coherent.syncLoop (hlog : SoundLog decrypt log) (h : Coherent decrypt log v)
    (hs : Synced decrypt log v upTo decrypted rest)
    (ho : (∀ w ∈ rest, a.shouldSkip w.messageId = true) → SnapshotOrderly log v upTo) :
    Coherent decrypt log (View.syncLoop a upTo decrypted rest v).1
      ∧ Fits decrypt log (View.syncLoop a upTo decrypted rest v).1
        (View.syncLoop a upTo decrypted rest v).2
      ∧ (View.syncLoop a upTo decrypted rest v).2.position = none
      ∧ (View.syncLoop a upTo decrypted rest v).1.tasks = v.tasks := by
  induction rest generalizing v with
  | nil => exact ⟨h.applySnapshot hlog hs (ho nofun), trivial, rfl, rfl⟩
  | cons w rest ih =>
      rw [View.syncLoop]
      by_cases hskip : a.shouldSkip w.messageId = true
      · rw [if_pos hskip]
        refine ih (h.hideMessages _) hs.skip fun hall => ?_
        have ho' := ho fun w' hw' => (List.mem_cons.mp hw').elim (fun he => he ▸ hskip) (hall w')
        exact ho'.mono rfl rfl rfl rfl (List.subset_append_left _ _)
      · rw [if_neg hskip]
        refine ⟨h, ⟨?_, hs⟩, rfl, rfl⟩
        obtain ⟨before, -, hlist, -⟩ := hs
        have hw : w ∈ serverList log upTo :=
          hlist ▸ List.mem_append.mpr (.inr List.mem_cons_self)
        obtain ⟨q, w₀, -, hcreated, -, -, htimes⟩ := created_of_mem hw
        exact toEpochMs_eq_stamp (htimes ▸ (hlog.created hcreated).2) a.now

theorem Coherent.syncMessage (hlog : SoundLog decrypt log) (h : Coherent decrypt log v)
    {w : WireMessage Cipher} {timestamp : Nat}
    (ht : v.tasks[i]? = some (.syncMessage upTo w timestamp rest decrypted))
    (ho : (∀ w ∈ rest, a.shouldSkip w.messageId = true) → SnapshotOrderly log v upTo) :
    Coherent decrypt log
      (View.goOn i (v.resume decrypt a (.syncMessage upTo w timestamp rest decrypted))) := by
  obtain ⟨rfl, hs⟩ := h.fits _ (List.mem_of_getElem? ht)
  obtain ⟨hloop, hfits, hnone, htasks⟩ := h.syncLoop hlog hs.take ho
  exact hloop.setTask (htasks ▸ ht) rfl hfits hnone

theorem Coherent.handleSyncMessages (hlog : SoundLog decrypt log) (h : Coherent decrypt log v)
    {success : Bool} (ho : OrderlyEvent decrypt log v a (.sync success upTo)) :
    Coherent decrypt log (v.handleSyncMessages a success upTo (serverList log upTo)) := by
  unfold View.handleSyncMessages
  cases success with
  | false => exact h
  | true =>
      have hs : Synced decrypt log v upTo [] (serverList log upTo) := synced_start upTo
      have ho' := ho rfl
      rw [if_neg (by simp)]
      split
      · exact h
      · rename_i hkey
        split
        · rename_i hempty
          have hnil := List.isEmpty_iff.mp hempty
          rw [hnil] at hs ho'
          exact h.applySnapshot hlog hs (ho' nofun)
        · rename_i hempty
          have hhas : a.hasKey = true := by simpa [hempty] using hkey
          obtain ⟨hloop, hfits, hnone, -⟩ := h.syncLoop hlog hs fun hall =>
            ho' fun w hw => ⟨hhas, hall w hw⟩
          exact hloop.spawn hfits hnone

end Snapshot

/-! ### Own messages -/

section Own

variable {text : String} {status : MessageStatus}

theorem mem_updateMessageStatus {l : List DecryptedMessage} (hne : m.id ≠ id) :
    m ∈ updateMessageStatus l id status ↔ m ∈ l := by
  constructor
  · intro hm
    obtain ⟨m', hm', rfl⟩ := List.mem_map.mp hm
    by_cases he : m'.id = id
    · rw [if_pos he] at hne
      exact absurd he hne
    · rwa [if_neg he]
  · intro hm
    exact List.mem_map.mpr ⟨m, hm, if_neg hne⟩

/-- The message of the id has its status, and the same entry. -/
theorem exists_of_mem_updateMessageStatus {l : List DecryptedMessage}
    (hm : m ∈ updateMessageStatus l id status) (hid : m.id = id) :
    ∃ m₀ ∈ l, m₀.id = id ∧ m.status = status ∧ entry m = entry m₀ := by
  obtain ⟨m₀, hm₀, rfl⟩ := List.mem_map.mp hm
  by_cases he : m₀.id = id
  · rw [if_pos he]
    exact ⟨m₀, hm₀, he, rfl, rfl⟩
  · rw [if_neg he] at hid
    exact absurd hid he

theorem shown_updateMessageStatus {l : List DecryptedMessage} {id' : MessageId} {x : Entry} :
    Shown (updateMessageStatus l id status) id' x ↔ Shown l id' x :=
  shown_map fun m => by split <;> rfl

/-- What an acknowledgement does to the other messages. -/
theorem untouched_sent {messageId : MessageId} {acked : List MessageId} (hne : id ≠ messageId)
    (hacked : id ∈ v.acked → id ∈ acked) : Untouched log v
      { v with acked, messages := updateMessageStatus v.messages messageId status } id where
  told := told_mono (Nat.le_refl _) (Nat.le_refl _) hacked
  own := Iff.rfl
  arriving := fun h => h
  pending := fun _ _ hp _ _ hold => hold hp
  edits := fun _ _ _ h _ => h
  messages := fun _ hm => mem_updateMessageStatus (hm ▸ hne)

/-- The server has accepted an own message. -/
theorem Coherent.accepted (hlog : SoundLog decrypt log) (h : Coherent decrypt log v)
    {messageId : MessageId} (ho : SentOrderly log v messageId true) :
    Coherent decrypt log (v.handleMessageSent messageId true) := by
  obtain ⟨hown, ⟨b, hb, hcreates⟩, hearly⟩ := ho
  obtain ⟨c, hb⟩ := List.mem_iff_getElem?.mp hb
  cases b with
  | edited e => cases hcreates
  | deleted id => cases hcreates
  | created w =>
      obtain rfl : w.messageId = messageId := eq_of_beq hcreates
      have hat := createdAt_eq hlog hb
      have htold : c + 1 ≤ (v.handleMessageSent w.messageId true).told log w.messageId := by
        have hmem : w.messageId ∈ (v.handleMessageSent w.messageId true).acked :=
          List.mem_append.mpr (.inr List.mem_cons_self)
        refine Nat.le_trans ?_ (Nat.le_max_right ..)
        rw [if_pos hmem, hat]
      refine h.touch w.messageId (h.tidy.updateMessageStatus ..)
        (fun t ht => (h.fits t ht).mono rfl fun _ hid => hid) h.positions ?_ rfl rfl ?_ ?_ ?_
      · intro id hid
        rcases List.mem_append.mp hid with hid | hid
        · exact h.acked hid
        · obtain rfl := List.mem_singleton.mp hid
          exact hown
      · intro id hne
        exact untouched_sent hne fun hid => List.mem_append.mpr (.inl hid)
      · intro _ m hm hmid hflight
        obtain ⟨-, -, -, hstatus, -⟩ := exists_of_mem_updateMessageStatus hm hmid
        rw [inFlight, hstatus] at hflight
        cases hflight
      · intro hid _
        by_cases hflight : ∃ m ∈ v.messages, m.id = w.messageId ∧ inFlight m = true
        · obtain ⟨m, hm, hmid, hin⟩ := hflight
          have hunderway := h.underway m hm hin (hmid ▸ hid)
          obtain ⟨hentry, -⟩ := hunderway.relayed c w hb hmid.symm
          have hsynced := hearly.resolve_left hid ⟨m, hm, hmid, hin⟩
          rw [hat] at hsynced
          refine ⟨c + 1, showsAt_creation hlog hb (Nat.le_of_lt_succ hsynced) htold ?_ ?_ ?_⟩
          · intro q b _ hq hget hbid
            exact hunderway.pending q b hq hget (hbid.trans hmid.symm)
          · exact fun t ht => (h.fits t ht).mono rfl fun _ hid => hid
          · intro x
            refine shown_updateMessageStatus.trans ⟨?_, ?_⟩
            · rintro ⟨m', hm', hmid', rfl⟩
              rw [h.tidy.unique hm' hm (hmid'.trans hmid.symm), hentry]
            · rintro rfl
              exact ⟨m, hm, hmid, hentry⟩
        · obtain ⟨n, hn⟩ := h.settled w.messageId hid fun m hm hmid => by
            by_contra hnot
            exact hflight ⟨m, hm, hmid, Bool.eq_true_of_not_eq_false hnot⟩
          refine ⟨n, hn.frame rfl ?_ (fun hm => hm) (fun hm => hm) (fun _ _ hp _ _ hold => hold hp)
            (fun _ _ _ ht _ _ => .inl ht) fun _ => shown_updateMessageStatus⟩
          exact told_mono (Nat.le_refl _) (Nat.le_refl _) fun hmem => List.mem_append.mpr (.inl hmem)

/-- The server has refused an own message. -/
theorem Coherent.refused (h : Coherent decrypt log v)
    {messageId : MessageId} (ho : SentOrderly log v messageId false) :
    Coherent decrypt log (v.handleMessageSent messageId false) := by
  have hnever : ∀ (p : Nat) (w : WireMessage Cipher), log[p]? = some (.created w) →
      w.messageId ≠ messageId := by
    intro p w hp hwid
    have hnot := ho _ (List.mem_of_getElem? hp)
    simp [Broadcast.creates, hwid] at hnot
  -- A message that is listed under the id is on its way.
  have hunderway : messageId ∉ v.hidden → ∀ m ∈ v.messages, m.id = messageId →
      Underway decrypt log v m := by
    intro hid m hm hmid
    by_cases hflight : inFlight m = true
    · exact h.underway m hm hflight (hmid ▸ hid)
    · obtain ⟨n, hn⟩ := h.settled messageId hid fun m' hm' hmid' => by
        rw [h.tidy.unique hm' hm (hmid'.trans hmid.symm)]
        exact Bool.eq_false_iff.mpr hflight
      obtain ⟨w, hw, hwid, -⟩ := (hn.entries (entry m)).mp ⟨m, hm, hmid, rfl⟩
      obtain ⟨p, w₀, -, hcreated, hid₀, -⟩ := created_of_mem hw
      exact absurd (hid₀.trans hwid) (hnever p w₀ hcreated)
  refine h.touch messageId (h.tidy.updateMessageStatus ..)
    (fun t ht => (h.fits t ht).mono rfl fun _ hid => hid) h.positions h.acked rfl rfl ?_ ?_ ?_
  · intro id hne
    exact untouched_sent hne fun hmem => hmem
  · intro hid m hm hmid _
    obtain ⟨m₀, hm₀, hm₀id, -, -⟩ := exists_of_mem_updateMessageStatus hm hmid
    have hold := hunderway hid m₀ hm₀ hm₀id
    have hsame : m₀.id = m.id := hm₀id.trans hmid.symm
    refine ⟨hsame ▸ hold.own, fun p b hp hb hbid => hold.pending p b hp hb (hbid.trans hsame.symm),
      fun p w hp hwid => absurd (hwid.trans hmid) (hnever p w hp)⟩
  · intro hid hall
    obtain ⟨n, hn⟩ := h.settled messageId hid fun m hm hmid => by
      have hfailed := hall { m with status := .failed }
        (List.mem_map.mpr ⟨m, hm, if_pos hmid⟩) hmid
      cases hfailed
    exact ⟨n, hn.frame rfl (Nat.le_refl _) (fun hm => hm) (fun hm => hm)
      (fun _ _ hp _ _ hold => hold hp) (fun _ _ _ ht _ _ => .inl ht)
      fun _ => shown_updateMessageStatus⟩

theorem Coherent.sendMessage (hlog : SoundLog decrypt log) (h : Coherent decrypt log v)
    {messageId : MessageId} (ho : SendOrderly decrypt log v a messageId text) :
    Coherent decrypt log (v.sendMessage a messageId text) := by
  obtain ⟨hhas, hfresh⟩ := ho
  have hcreation : ∀ (p : Nat) (w : WireMessage Cipher), log[p]? = some (.created w) →
      w.messageId = messageId →
        max v.received v.synced ≤ p ∧ Relays decrypt a text (.created w) := by
    intro p w hp hwid
    exact hfresh p (List.getElem?_eq_some_iff.mp hp).1 _ hp (by simp [Broadcast.creates, hwid])
  have hmem : ∀ {m : DecryptedMessage}, m ∈ (v.sendMessage a messageId text).messages →
      m ∈ v.messages ∨ m = ⟨messageId, text, a.now, .sending, none⟩ := by
    intro m hm
    exact (List.mem_append.mp (mem_sortByTimestamp.mp hm)).imp_right List.mem_singleton.mp
  have hlocal : (⟨messageId, text, a.now, .sending, none⟩ : DecryptedMessage)
      ∈ (v.sendMessage a messageId text).messages :=
    mem_sortByTimestamp.mpr (List.mem_append.mpr (.inr List.mem_cons_self))
  have habsent : ∀ m ∈ v.messages, m.id ≠ messageId := by
    intro m hm hmid
    rw [has_iff.mpr ⟨m, hm, hmid⟩] at hhas
    cases hhas
  refine h.touch messageId (tidy_insert h.tidy hhas)
    (fun t ht => (h.fits t ht).mono rfl fun _ hid => hid) h.positions
    (fun id hid => List.mem_append.mpr (.inl (h.acked hid))) rfl rfl ?_ ?_ ?_
  · intro id hne
    refine ⟨Nat.le_refl _, ?_, fun h => h, fun _ _ hp _ _ hold => hold hp, fun _ _ _ h _ => h, ?_⟩
    · refine ⟨fun hid => (List.mem_append.mp hid).resolve_right ?_,
        fun hid => List.mem_append.mpr (.inl hid)⟩
      exact fun hid => hne (List.mem_singleton.mp hid)
    · intro m hmid
      refine ⟨fun hm => (hmem hm).resolve_right ?_,
        fun hm => mem_sortByTimestamp.mpr (List.mem_append.mpr (.inl hm))⟩
      rintro rfl
      exact hne hmid.symm
  · intro _ m hm hmid _
    obtain rfl := (hmem hm).resolve_left fun hold => habsent m hold hmid
    refine ⟨List.mem_append.mpr (.inr List.mem_cons_self), ?_, ?_⟩
    · intro p b hp hb hbid
      obtain ⟨c, w, hc, hcreated, hwid⟩ := hlog.follows hb
      obtain ⟨hle, -⟩ := hcreation c w hcreated (hwid.trans hbid)
      have hp' : p < v.received := hp
      omega
    · intro p w hp hwid
      obtain ⟨-, hd, hstamp⟩ := hcreation p w hp hwid
      refine ⟨?_, rfl, by rw [hd]; rfl⟩
      simp [entry, wireEntry, View.decryptSynced, hd, hstamp, hwid, (hlog.created hp).1]
  · intro _ hall
    cases hall _ hlocal rfl

end Own

/-! ## Every run -/

theorem step_coherent (hlog : SoundLog decrypt log) {event : Event} (h : Coherent decrypt log v)
    (ho : OrderlyEvent decrypt log v a event) (hs : step decrypt log v a event = some v') :
    Coherent decrypt log v' := by
  cases event with
  | broadcast =>
      obtain ⟨b, hb, rfl⟩ := Option.map_eq_some_iff.mp hs
      exact h.broadcast hlog hb (ho b hb)
  | sync success upTo =>
      obtain rfl := Option.some.inj hs
      exact h.handleSyncMessages hlog ho
  | sent messageId success =>
      obtain rfl := Option.some.inj hs
      cases success with
      | false => exact h.refused ho
      | true => exact h.accepted hlog ho
  | send messageId text =>
      obtain rfl := Option.some.inj hs
      exact h.sendMessage hlog ho
  | hide messageIds =>
      obtain rfl := Option.some.inj hs
      exact h.hideMessages messageIds
  | decrypted i =>
      obtain ⟨t, ht, rfl⟩ := Option.map_eq_some_iff.mp hs
      have ho' : ResumeOrderly log v a t := ho t ht
      show Coherent decrypt log (View.goOn i (v.resume decrypt a t))
      cases t with
      | newMessage position w timestamp => exact h.newMessage hlog ht ho'
      | edited position e editedAtMs => exact h.edited hlog ht ho'
      | syncMessage upTo w timestamp rest decrypted => exact h.syncMessage hlog ht ho'
      | done => exact h.setTask ht rfl trivial rfl

theorem coherent_preserved (hlog : SoundLog decrypt log) :
    (room decrypt log).Preserves (Orderly decrypt log) fun c => Coherent decrypt log c.store :=
  ⟨fun _ p => p.elim, fun _ _ p => p.elim,
    fun _ _ _ hi hg he => step_coherent hlog hi hg he⟩

/-- Nothing is being decrypted. -/
theorem not_pending_of_quiet (hquiet : v.quiet = true) (p : Nat) : ¬ Pending v p := by
  rintro ⟨t, ht, hp⟩
  have hdone := List.all_eq_true.mp (Bool.and_eq_true_iff.mp hquiet).1 t ht
  cases t with
  | done => cases hp
  | _ => cases hdone

theorem not_arriving_of_quiet (hquiet : v.quiet = true) (id : MessageId) : ¬ Arriving v id := by
  rintro ⟨t, ht, hbrings⟩
  have hdone := List.all_eq_true.mp (Bool.and_eq_true_iff.mp hquiet).1 t ht
  cases t with
  | done => cases hbrings
  | _ => cases hdone

/-- What a quiet view shows of a message is what the server has told about it. -/
theorem ShowsAt.served (hlog : SoundLog decrypt log) (h : Coherent decrypt log v)
    (hn : ShowsAt decrypt log v id n) (hquiet : v.quiet = true) {x : Entry} :
    Served decrypt log n id x ↔ Served decrypt log (v.told log id) id x := by
  have hstable : ∀ w : WireMessage Cipher, w.messageId = id →
      (w ∈ serverList log (v.told log id) ↔ w ∈ serverList log n) := by
    intro w hwid
    refine serverList_stable hn.told hwid fun q b hle hlt hb hbid => ?_
    by_cases hreceived : q < v.received
    · exact not_pending_of_quiet hquiet q (hn.pending q b hle hreceived hb hbid)
    · -- The message's creation is not ahead of what is shown.
      obtain ⟨c, w₀, hc, hcreated, hid₀⟩ := hlog.follows hb
      have hid₀ := hid₀.trans hbid
      have hat := createdAt_eq hlog hcreated
      rw [hid₀] at hat
      have hsynced := hn.synced
      unfold View.told at hlt
      by_cases hacked : id ∈ v.acked
      · rw [if_pos hacked] at hlt
        have hcn := (hn.own (h.acked hacked) c w₀ hcreated hid₀).resolve_right
          (not_arriving_of_quiet hquiet id)
        omega
      · rw [if_neg hacked] at hlt
        omega
  constructor
  · rintro ⟨w, hw, hwid, hx⟩
    exact ⟨w, (hstable w hwid).mpr hw, hwid, hx⟩
  · rintro ⟨w, hw, hwid, hx⟩
    exact ⟨w, (hstable w hwid).mp hw, hwid, hx⟩

theorem Coherent.converged (hlog : SoundLog decrypt log) (h : Coherent decrypt log v)
    (hquiet : v.quiet = true) (expired : MessageId → Bool) :
    Converged decrypt log v expired := by
  have hsettled : ∀ m ∈ v.messages, inFlight m = false := by
    intro m hm
    simpa using List.all_eq_true.mp (Bool.and_eq_true_iff.mp hquiet).2 m hm
  have hshown : ∀ x : Entry, x.id ∉ v.hidden → (Shown v.messages x.id x ↔
      Served decrypt log (v.told log x.id) x.id x) := by
    intro x hid
    obtain ⟨n, hn⟩ := h.settled x.id hid fun m hm _ => hsettled m hm
    exact (hn.entries x).trans (hn.served hlog h hquiet)
  refine ⟨h.tidy.filter _, fun x => ?_⟩
  constructor
  · rintro ⟨m, hm, rfl⟩
    obtain ⟨hm, hvisible⟩ := List.mem_filter.mp hm
    obtain ⟨hid, hexpired⟩ := Bool.and_eq_true_iff.mp hvisible
    have hid : m.id ∉ v.hidden := of_decide_eq_true hid
    obtain ⟨w, hw, -, hx⟩ := (hshown (entry m) hid).mp ⟨m, hm, rfl, rfl⟩
    have hexpired : expired m.id = false := by simpa using hexpired
    exact ⟨hid, hexpired, w, hw, hx⟩
  · rintro ⟨hid, hexpired, w, hw, rfl⟩
    obtain ⟨m, hm, hmid, hx⟩ := (hshown _ hid).mpr ⟨w, hw, rfl, rfl⟩
    refine ⟨m, List.mem_filter.mpr ⟨hm, ?_⟩, hx⟩
    rw [hmid]
    simp [hid, hexpired]

/-- In every run in which no callback overtakes another, the view converges to the server's
list. -/
theorem room_converges (hlog : SoundLog decrypt log) {c : Conf (View Cipher) Empty}
    (h : (room decrypt log).Run (Orderly decrypt log) ⟨.empty, []⟩ c)
    (hquiet : c.store.quiet = true) (expired : MessageId → Bool) :
    Converged decrypt log c.store expired :=
  (h.invariant (coherent_preserved hlog) coherent_empty).converged hlog hquiet expired

end Steps

/-! ## Particular runs -/

section Runs

variable (decrypt : Cipher → Option String) (log : List (Broadcast Cipher)) (v : View Cipher)
  (a : Ambient)

instance (p : Nat) : Decidable (Pending v p) :=
  inferInstanceAs (Decidable (∃ t ∈ v.tasks, t.position = some p))

instance (id : MessageId) : Decidable (Arriving v id) :=
  inferInstanceAs (Decidable (∃ t ∈ v.tasks, t.brings = some id))

instance : (b : Broadcast Cipher) → Decidable (BroadcastOrderly v a b)
  | .deleted id => inferInstanceAs (Decidable (¬ Arriving v id))
  | .created _ | .edited _ => inferInstanceAs (Decidable (a.hasKey = true))

instance (position : Nat) (w : WireMessage Cipher) : Decidable (NewMessageOrderly v position w) :=
  inferInstanceAs (Decidable (w.messageId ∈ v.hidden ∨
    (position < v.synced → ∃ m ∈ v.messages, m.id = w.messageId ∧ inFlight m = false)))

instance (position : Nat) (e : EditPayload Cipher) : Decidable (EditOrderly log v position e) :=
  inferInstanceAs (Decidable (e.messageId ∈ v.hidden ∨
    ((∀ t ∈ v.tasks, ∀ q ∈ t.position, q < position →
        ∀ b ∈ log[q]?, b.messageId ≠ e.messageId)
      ∧ ∀ q < v.synced, position < q → ∀ b ∈ log[q]?, b.edits e.messageId = false)))

instance (upTo : Nat) : Decidable (SnapshotOrderly log v upTo) :=
  inferInstanceAs (Decidable (v.synced ≤ upTo
    ∧ (∀ p < v.received, upTo ≤ p → ∀ b ∈ log[p]?, b.messageId ∈ v.hidden ∨ Pending v p)
    ∧ ∀ id ∈ v.acked, id ∈ v.hidden ∨ createdAt log id ≤ upTo ∨ Arriving v id))

instance : (t : Task Cipher) → Decidable (ResumeOrderly log v a t)
  | .newMessage position w _ => inferInstanceAs (Decidable (NewMessageOrderly v position w))
  | .edited position e _ => inferInstanceAs (Decidable (EditOrderly log v position e))
  | .syncMessage upTo _ _ rest _ => inferInstanceAs (Decidable
      ((∀ w ∈ rest, a.shouldSkip w.messageId = true) → SnapshotOrderly log v upTo))
  | .done => .isTrue trivial

instance (messageId : MessageId) : (success : Bool) → Decidable (SentOrderly log v messageId success)
  | true => inferInstanceAs (Decidable (messageId ∈ v.own
      ∧ (∃ b ∈ log, b.creates messageId = true)
      ∧ (messageId ∈ v.hidden ∨ ((∃ m ∈ v.messages, m.id = messageId ∧ inFlight m = true) →
        v.synced < createdAt log messageId))))
  | false => inferInstanceAs (Decidable (∀ b ∈ log, b.creates messageId = false))

instance (text : String) : (b : Broadcast Cipher) → Decidable (Relays decrypt a text b)
  | .created w => inferInstanceAs (Decidable (decrypt w.cipher = some text ∧ stamp w = a.now))
  | .edited _ | .deleted _ => .isTrue trivial

instance (messageId : MessageId) (text : String) :
    Decidable (SendOrderly decrypt log v a messageId text) :=
  inferInstanceAs (Decidable (has v.messages messageId = false
    ∧ ∀ p < log.length, ∀ b ∈ log[p]?, b.creates messageId = true →
      max v.received v.synced ≤ p ∧ Relays decrypt a text b))

instance : (event : Event) → Decidable (OrderlyEvent decrypt log v a event)
  | .broadcast => inferInstanceAs (Decidable (∀ b ∈ log[v.received]?, BroadcastOrderly v a b))
  | .sync success upTo => inferInstanceAs (Decidable (success = true →
      (∀ w ∈ serverList log upTo, a.hasKey = true ∧ a.shouldSkip w.messageId = true) →
        SnapshotOrderly log v upTo))
  | .sent messageId success => inferInstanceAs (Decidable (SentOrderly log v messageId success))
  | .send messageId text =>
      inferInstanceAs (Decidable (SendOrderly decrypt log v a messageId text))
  | .hide _ => .isTrue trivial
  | .decrypted i => inferInstanceAs (Decidable (∀ t ∈ v.tasks[i]?, ResumeOrderly log v a t))

def isOrderly (c : Conf (View Cipher) Empty) : Action Empty (Ambient × Event) → Bool
  | .env event => OrderlyEvent decrypt log c.store event.1 event.2
  | _ => true

theorem orderly_of_isOrderly (c : Conf (View Cipher) Empty) {x : Action Empty (Ambient × Event)}
    (h : isOrderly decrypt log c x = true) : Orderly decrypt log c x := by
  cases x with
  | env event =>
      exact of_decide_eq_true (p := OrderlyEvent decrypt log c.store event.1 event.2) h
  | _ => trivial

end Runs

/-- A message that is edited and deleted, and one of the user's own in between; texts stand for
their ciphertexts. -/
def sampleLog : List (Broadcast String) :=
  [.created (wire "m" "text" 1), .edited ⟨"m", "new", some 5⟩, .created (wire "n" "own" 7),
    .deleted "m"]

theorem created_sampleLog {p : Nat} {w : WireMessage String}
    (h : sampleLog[p]? = some (.created w)) :
    (p = 0 ∧ w = wire "m" "text" 1) ∨ (p = 2 ∧ w = wire "n" "own" 7) := by
  match p with
  | 0 =>
      cases h
      exact .inl ⟨rfl, rfl⟩
  | 1 => cases h
  | 2 =>
      cases h
      exact .inr ⟨rfl, rfl⟩
  | 3 => cases h
  | _ + 4 => cases h

theorem edited_sampleLog {p : Nat} {e : EditPayload String}
    (h : sampleLog[p]? = some (.edited e)) : e = ⟨"m", "new", some 5⟩ := by
  match p with
  | 0 => cases h
  | 1 =>
      cases h
      rfl
  | 2 => cases h
  | 3 => cases h
  | _ + 4 => cases h

theorem sampleLog_sound : SoundLog some sampleLog where
  distinct hp hq hid := by
    rcases created_sampleLog hp with ⟨rfl, rfl⟩ | ⟨rfl, rfl⟩ <;>
      rcases created_sampleLog hq with ⟨rfl, rfl⟩ | ⟨rfl, rfl⟩ <;> simp [wire] at hid ⊢
  created hp := by
    rcases created_sampleLog hp with ⟨-, rfl⟩ | ⟨-, rfl⟩ <;> exact ⟨rfl, rfl⟩
  edited hp := by
    obtain rfl := edited_sampleLog hp
    exact ⟨rfl, rfl⟩
  follows {p b} hp := by
    match p with
    | 0 =>
        cases hp
        exact ⟨0, _, Nat.le_refl _, rfl, rfl⟩
    | 1 =>
        cases hp
        exact ⟨0, _, Nat.zero_le _, rfl, rfl⟩
    | 2 =>
        cases hp
        exact ⟨2, _, Nat.le_refl _, rfl, rfl⟩
    | 3 =>
        cases hp
        exact ⟨0, _, Nat.zero_le _, rfl, rfl⟩
    | _ + 4 => cases hp

def clear : Ambient := ⟨true, fun _ => false, 7⟩

def act (event : Event) : Action Empty (Ambient × Event) := .env (clear, event)

/-- A snapshot is applied before the edit comes; the own message is acknowledged before its
broadcast; the deletion comes last. -/
def ordered : List (Action Empty (Ambient × Event)) :=
  [act .broadcast, act (.decrypted 0), act (.sync true 1), act (.decrypted 1), act .broadcast,
    act (.decrypted 2), act (.send "n" "own"), act (.sent "n" true), act .broadcast,
    act (.decrypted 3), act .broadcast]

theorem room_converges_ordered : ∃ c,
    (room some sampleLog).Run (Orderly some sampleLog) ⟨.empty, []⟩ c
      ∧ c.store.messages = [⟨"n", "own", 7, .sent, none⟩]
      ∧ Converged some sampleLog c.store fun _ => false := by
  obtain ⟨c, hrun, hq⟩ := (room some sampleLog).exists_run_of_execWhile
    (isOrderly some sampleLog) ⟨.empty, []⟩ ordered
    (fun c => c.store.quiet && decide (c.store.messages = [⟨"n", "own", 7, .sent, none⟩]))
    (fun c _ => orderly_of_isOrderly some sampleLog c) (by decide +kernel)
  obtain ⟨hquiet, hmessages⟩ := Bool.and_eq_true_iff.mp hq
  exact ⟨c, hrun, of_decide_eq_true hmessages, room_converges sampleLog_sound hrun hquiet _⟩

section Divergence

variable {decrypt : Cipher → Option String} {log : List (Broadcast Cipher)} {v : View Cipher}
  {w : WireMessage Cipher} {id : MessageId}

/-- A message on the server's list is not shown. -/
theorem not_converged_of_lost (hw : w ∈ serverList log (v.told log w.messageId))
    (hid : w.messageId ∉ v.hidden) (hhas : has v.messages w.messageId = false) :
    ¬ Converged decrypt log v fun _ => false := by
  intro h
  obtain ⟨m, hm, hx⟩ := (h.shows (wireEntry decrypt w)).mpr ⟨hid, rfl, w, hw, rfl⟩
  have hmid : m.id = w.messageId := congrArg Entry.id hx
  rw [has_iff.mpr ⟨m, (List.mem_filter.mp hm).1, hmid⟩] at hhas
  cases hhas

/-- A message that is not on the server's list is shown. -/
theorem not_converged_of_kept (hnone : ∀ w ∈ serverList log (v.told log id), w.messageId ≠ id)
    (hid : id ∉ v.hidden) (hhas : has v.messages id = true) :
    ¬ Converged decrypt log v fun _ => false := by
  intro h
  obtain ⟨m, hm, rfl⟩ := has_iff.mp hhas
  have hvisible : m ∈ v.visible fun _ => false :=
    List.mem_filter.mpr ⟨hm, by simpa using hid⟩
  obtain ⟨-, -, w, hw, hx⟩ := (h.shows (entry m)).mp ⟨m, hvisible, rfl⟩
  exact hnone w hw (congrArg Entry.id hx)

end Divergence

/-- A message is received while a snapshot is decrypted, and is lost; a message is deleted while
a snapshot is decrypted, and comes back. -/
theorem room_diverges : SoundLog some sampleLog
    ∧ (∃ c, (room some sampleLog).Reach ⟨.empty, []⟩ c ∧ c.store.quiet = true
      ∧ has c.store.messages "n" = false ∧ ¬ Converged some sampleLog c.store fun _ => false)
    ∧ ∃ c, (room some sampleLog).Reach ⟨.empty, []⟩ c ∧ c.store.quiet = true
      ∧ has c.store.messages "m" = true ∧ ¬ Converged some sampleLog c.store fun _ => false := by
  refine ⟨sampleLog_sound, ?_, ?_⟩
  · obtain ⟨c, hrun, hq⟩ := (room some sampleLog).exists_reach_of_exec ⟨.empty, []⟩
      [act .broadcast, act (.decrypted 0), act (.sync true 1), act .broadcast, act (.decrypted 2),
        act .broadcast, act (.decrypted 3), act (.decrypted 1)]
      (fun c => c.store.quiet && !has c.store.messages "n"
        && c.store.hidden.isEmpty && c.store.told sampleLog "n" == 3) rfl
    simp only [Bool.and_eq_true, Bool.not_eq_true', List.isEmpty_iff, beq_iff_eq] at hq
    obtain ⟨⟨⟨hquiet, hhas⟩, hhidden⟩, htold⟩ := hq
    refine ⟨c, hrun, hquiet, hhas,
      not_converged_of_lost (w := wire "n" "own" 7) ?_ (by rw [hhidden]; nofun) hhas⟩
    have hserved : wire "n" "own" 7 ∈ serverList sampleLog 3 := List.mem_cons_of_mem _ List.mem_cons_self
    exact htold ▸ hserved
  · obtain ⟨c, hrun, hq⟩ := (room some sampleLog).exists_reach_of_exec ⟨.empty, []⟩
      [act .broadcast, act (.decrypted 0), act .broadcast, act (.decrypted 1), act .broadcast,
        act (.decrypted 2), act (.sync true 3), act .broadcast, act (.decrypted 3),
        act (.decrypted 3)]
      (fun c => c.store.quiet && has c.store.messages "m"
        && c.store.hidden.isEmpty && c.store.told sampleLog "m" == 4) rfl
    simp only [Bool.and_eq_true, List.isEmpty_iff, beq_iff_eq] at hq
    obtain ⟨⟨⟨hquiet, hhas⟩, hhidden⟩, htold⟩ := hq
    refine ⟨c, hrun, hquiet, hhas,
      not_converged_of_kept ?_ (by rw [hhidden]; nofun) hhas⟩
    rw [htold]
    intro w hw
    obtain rfl := List.mem_singleton.mp hw
    simp [wire]

end RoomView

end BurnedChats
