import Mathlib.Data.List.Perm.Basic
import BurnedChats.Backend.Handshake

/-!
# When do the two sides end up with the same keys

A relay is under way from the read that finds both keys until the keys are
cleared and both events are delivered. Two things spoil an exchange: a relay of
a key its client has meanwhile replaced (the replacement is still on its way),
and a client that replaces its key pair while a relay of the old one is under
way. Either leaves one side complete with the old pair and the other with the
new one, and the notification that would repair it is ignored by a client that
is itself waiting.

Where relays carry the clients' current keys and nobody makes a new pair during
a relay, two complete clients agree (`keys_agree`). The invariant follows every
key on its only way (`places`): published, in a request, stored, cleared.
-/

namespace BurnedChats

open Interleave Sessions

namespace Handshake

/-! ## Conditions -/

/-- The command belongs to a relay: it hands out a key or clears both. -/
def isRelay : Command → Bool
  | .send _ (.peerPublicKey _) => true
  | .clearPublicKeys => true
  | _ => false

def Request.relays : Request → Bool
  | .receiving _ => false
  | .handling call => call.todo.any isRelay

def isPeerKey : String × Event → Bool
  | (_, .peerPublicKey _) => true
  | _ => false

/-- A relay is under way. -/
def underWay (c : Conf Exchange Request) : Bool :=
  c.pool.any Request.relays || c.store.server.outbox.any isPeerKey

namespace System

variable (sys : System)

/-- The key a move would generate. -/
def newKey (e : Exchange) : Move → Option String
  | .startHandshake role isConnected forceRefresh key =>
      ((e.clients role).startHandshake sys.crypto isConnected forceRefresh key).2
  | .refreshKeys role inChat key => (sys.refreshed e role inChat key).2
  | _ => none

/-- Key generation does not repeat a key. -/
def unpredictable (c : Conf Exchange Request) : Action Request Move → Bool
  | .env m => (sys.newKey c.store m).all fun key => !c.store.generated.contains key
  | _ => true

/-- The stored keys are those of the two clients. -/
def current (e : Exchange) (session : Session) : Bool :=
  (e.clients .initiator).keys.map SessionKeys.keyPair == session.initiatorPublicKey
    && (e.clients .responder).keys.map SessionKeys.keyPair == session.responderPublicKey

/-- A relay starts with the clients' current keys, and no key pair is replaced
while one is under way. -/
def steady (c : Conf Exchange Request) : Action Request Move → Bool
  | .env m => (sys.newKey c.store m).isNone || !underWay c
  | .turn i =>
      match c.pool[i]? with
      | some (.handling ⟨[], some (.afterPublicKey _ _ _)⟩) =>
          match sys.cfg.findById c.store.server with
          | none => true
          | some session => !session.areBothKeysReady || current c.store session
      | _ => true
  | _ => true

end System

/-! ## The way of a key -/

/-- The key stored for a participant. -/
def storedKey (s : Store) : Role → Option String
  | .initiator => s.hash.bind SessionHash.initiatorPublicKey
  | .responder => s.hash.bind SessionHash.responderPublicKey

def storesKey (role : Role) (key : String) : Command → Bool
  | .setPublicKey r k => r == role && k == key
  | _ => false

/-- The read passes a key on. -/
def passes (user key : String) : Option Handler → Bool
  | some (.relayKey sender k) => sender == user && k == key
  | some (.setPublicKey sender k _ _) => sender == user && k == key
  | _ => false

def Request.carries (parties : Parties) (role : Role) (key : String) : Request → Bool
  | .receiving _ => false
  | .handling call => passes (parties.id role) key call.next || call.todo.any (storesKey role key)

variable (parties : Parties)

/-- How often a key is on its way to the session. -/
def waiting (role : Role) (key : String) (c : Conf Exchange Request) : Nat :=
  c.store.inbox.count (role, key) + c.pool.countP (Request.carries parties role key)

def places (role : Role) (key : String) (c : Conf Exchange Request) : Nat :=
  waiting parties role key c + if storedKey c.store.server role = some key then 1 else 0

def Request.clears : Request → Bool
  | .receiving _ => false
  | .handling call => call.todo.any fun cmd => match cmd with | .clearPublicKeys => true | _ => false

def Request.hands (user key : String) : Request → Prop
  | .receiving _ => False
  | .handling call => .send user (.peerPublicKey key) ∈ call.todo

/-- An event with `key` is on its way to `user`. -/
def Announced (user key : String) (c : Conf Exchange Request) : Prop :=
  (∃ p ∈ c.pool, p.hands user key) ∨ (user, .peerPublicKey key) ∈ c.store.server.outbox

/-- The key has been stored, and will be gone with the next `HDEL`. -/
def Spent (role : Role) (key : String) (c : Conf Exchange Request) : Prop :=
  waiting parties role key c = 0 ∧
    (storedKey c.store.server role = some key → ∃ p ∈ c.pool, p.clears = true)

variable {parties}

theorem Request.relays_iff {p : Request} :
    p.relays = true ↔ p.clears = true ∨ ∃ user key, p.hands user key := by
  cases p with
  | receiving j => simp [relays, clears, hands]
  | handling call =>
      simp only [relays, clears, hands, List.any_eq_true]
      constructor
      · rintro ⟨cmd, hcmd, h⟩
        cases cmd with
        | clearPublicKeys => exact .inl ⟨_, hcmd, rfl⟩
        | send user event =>
            cases event with
            | peerPublicKey key => exact .inr ⟨user, key, hcmd⟩
            | keyRefresh | verification | mismatch | error | notice => cases h
        | save | setStatus | setLastActivity | setPublicKey | setHandshakeCompleted | setVerified
        | setMessageTtl | expire | delete | elsewhere => cases h
      · rintro (⟨cmd, hcmd, h⟩ | ⟨user, key, hcmd⟩)
        · cases cmd with
          | clearPublicKeys => exact ⟨_, hcmd, rfl⟩
          | save | setStatus | setLastActivity | setPublicKey | setHandshakeCompleted
          | setVerified | setMessageTtl | expire | delete | send | elsewhere => cases h
        · exact ⟨_, hcmd, rfl⟩

theorem underWay_iff {c : Conf Exchange Request} :
    underWay c = true ↔ (∃ p ∈ c.pool, p.clears = true) ∨ ∃ user key, Announced user key c := by
  simp only [underWay, Bool.or_eq_true, List.any_eq_true, Request.relays_iff]
  constructor
  · rintro (⟨p, hp, hc | ⟨user, key, hh⟩⟩ | ⟨⟨user, event⟩, he, hk⟩)
    · exact .inl ⟨p, hp, hc⟩
    · exact .inr ⟨user, key, .inl ⟨p, hp, hh⟩⟩
    · cases event with
      | peerPublicKey key => exact .inr ⟨user, key, .inr he⟩
      | keyRefresh | verification | mismatch | error | notice => cases hk
  · rintro (⟨p, hp, hc⟩ | ⟨user, key, ⟨p, hp, hh⟩ | he⟩)
    · exact .inl ⟨p, hp, .inl hc⟩
    · exact .inl ⟨p, hp, .inr ⟨user, key, hh⟩⟩
    · exact .inr ⟨_, he, rfl⟩

/-! ## The invariant -/

/-- The commands of the exchange. -/
def exchanges : Command → Bool
  | .setPublicKey _ _ => true
  | .setLastActivity _ => true
  | .clearPublicKeys => true
  | .setStatus _ => true
  | .setHandshakeCompleted _ => true
  | .elsewhere => true
  | .send _ (.peerPublicKey _) => true
  | .send _ .keyRefresh => true
  | .send _ (.error _) => true
  | _ => false

def exchangeRead : Handler → Bool
  | .relayKey .. => true
  | .setPublicKey .. => true
  | .afterPublicKey .. => true
  | _ => false

/-- How many keys a request carries. -/
def load (call : Call) : Nat :=
  call.todo.countP (fun cmd => match cmd with | .setPublicKey _ _ => true | _ => false)
    + match call.next with
      | some (.relayKey ..) => 1
      | some (.setPublicKey ..) => 1
      | _ => 0

structure CallExchanging (call : Call) : Prop where
  commands : ∀ cmd ∈ call.todo, exchanges cmd = true
  reads : ∀ handler ∈ call.next, exchangeRead handler = true
  single : load call ≤ 1

/-- A request of the exchange: what it may do, and that it carries one key at most. -/
def Request.Exchanging : Request → Prop
  | .receiving _ => True
  | .handling call => CallExchanging call

/-- What a client shows and holds fits together. -/
structure Client.Sound (crypto : Crypto) (c : Client) : Prop where
  complete : c.stage = .complete → c.isHandshakeComplete = true
  secret : ∀ keys secret, c.keys = some keys → keys.sharedSecret = some secret →
    ∃ peer, keys.peerPublicKey = some peer ∧ secret = crypto.sharedSecret keys.keyPair peer

/-- The client holds a secret from `keys`. -/
def Client.Holds (c : Client) (keys : SessionKeys) : Prop :=
  c.keys = some keys ∧ keys.sharedSecret.isSome = true

/-- A relay of the keys `x`. -/
structure Relaying (parties : Parties) (x : Role → String) (c : Conf Exchange Request) : Prop where
  spent : ∀ role, Spent parties role (x role) c
  handed : ∀ role key, Announced (parties.id role) key c → key = x role.peer
  own : ∀ role keys, (c.store.clients role).keys = some keys → keys.keyPair = x role
  held : ∀ role keys, (c.store.clients role).Holds keys → keys.peerPublicKey = some (x role.peer)

structure Agreeing (sys : System) (c : Conf Exchange Request) : Prop where
  between : c.store.server.Between sys.parties.initiator sys.parties.responder
  exchanging : ∀ p ∈ c.pool, p.Exchanging
  fresh : ∀ role key, key ∉ c.store.generated → places sys.parties role key c = 0
  once : ∀ role key, places sys.parties role key c ≤ 1
  sound : ∀ role, (c.store.clients role).Sound sys.crypto
  spent : ∀ role keys, (c.store.clients role).Holds keys → Spent sys.parties role keys.keyPair c
  relay : underWay c = true → ∃ x, Relaying sys.parties x c
  agree : ∀ role keys keys', (c.store.clients role).Holds keys →
    (c.store.clients role.peer).Holds keys' → keys.peerPublicKey = some keys'.keyPair

/-- Nothing new is on its way in `c'`. -/
structure Leads (parties : Parties) (c c' : Conf Exchange Request) : Prop where
  waiting : ∀ role key, waiting parties role key c' ≤ waiting parties role key c
  places : ∀ role key, places parties role key c' ≤ places parties role key c
  clears : ∀ role key, storedKey c'.store.server role = some key →
    (∃ p ∈ c.pool, p.clears = true) → ∃ p ∈ c'.pool, p.clears = true
  cleared : (∃ p ∈ c'.pool, p.clears = true) → ∃ p ∈ c.pool, p.clears = true
  announced : ∀ user key, Announced user key c' → Announced user key c

theorem Leads.underWay {c c' : Conf Exchange Request} (h : Leads parties c c')
    (hu : underWay c' = true) : underWay c = true := by
  rw [underWay_iff] at hu ⊢
  rcases hu with hc | ⟨user, key, ha⟩
  · exact .inl (h.cleared hc)
  · exact .inr ⟨user, key, h.announced user key ha⟩

theorem Leads.spent {c c' : Conf Exchange Request} (h : Leads parties c c') {role : Role}
    {key : String} (hs : Spent parties role key c) : Spent parties role key c' := by
  obtain ⟨hw, hc⟩ := hs
  refine ⟨Nat.le_zero.mp (hw ▸ h.waiting role key), fun hstored => h.clears role key hstored ?_⟩
  have hplaces := h.places role key
  simp only [Handshake.places, hstored, if_true, hw, Nat.zero_add] at hplaces
  by_cases hold : storedKey c.store.server role = some key
  · exact hc hold
  · rw [if_neg hold] at hplaces
    omega

/-- A step after which nothing new is on its way and no client has other keys. -/
theorem Leads.agreeing {sys : System} {c c' : Conf Exchange Request} (h : Agreeing sys c)
    (hl : Leads sys.parties c c')
    (hbetween : c'.store.server.Between sys.parties.initiator sys.parties.responder)
    (hexchanging : ∀ p ∈ c'.pool, p.Exchanging)
    (hgenerated : c'.store.generated = c.store.generated)
    (hkeys : ∀ role, (c'.store.clients role).keys = (c.store.clients role).keys
      ∨ (c'.store.clients role).keys = none)
    (hsound : ∀ role, (c'.store.clients role).Sound sys.crypto) : Agreeing sys c' := by
  have hsome : ∀ role keys, (c'.store.clients role).keys = some keys →
      (c.store.clients role).keys = some keys := fun role keys hk => by
    rcases hkeys role with he | he
    · rw [← he, hk]
    · rw [he] at hk
      cases hk
  have hholds : ∀ role keys, (c'.store.clients role).Holds keys →
      (c.store.clients role).Holds keys := fun role keys hk => ⟨hsome role keys hk.1, hk.2⟩
  refine ⟨hbetween, hexchanging, ?_, ?_, hsound, ?_, ?_, ?_⟩
  · intro role key hkey
    rw [hgenerated] at hkey
    exact Nat.le_zero.mp (h.fresh role key hkey ▸ hl.places role key)
  · exact fun role key => Nat.le_trans (hl.places role key) (h.once role key)
  · exact fun role keys hk => hl.spent (h.spent role keys (hholds role keys hk))
  · intro hu
    obtain ⟨x, hx⟩ := h.relay (hl.underWay hu)
    exact ⟨x, fun role => hl.spent (hx.spent role),
      fun role key ha => hx.handed role key (hl.announced _ _ ha),
      fun role keys hk => hx.own role keys (hsome role keys hk),
      fun role keys hk => hx.held role keys (hholds role keys hk)⟩
  · exact fun role keys keys' hk hk' =>
      h.agree role keys keys' (hholds _ _ hk) (hholds _ _ hk')

/-! ## Commands -/

theorem carries_of_load {call : Call} (h : load call = 0) (role : Role) (key : String) :
    (Request.handling call).carries parties role key = false := by
  obtain ⟨htodo, hnext⟩ := Nat.add_eq_zero_iff.mp h
  simp only [Request.carries, Bool.or_eq_false_iff]
  constructor
  · unfold passes
    split
    · rename_i heq
      rw [heq] at hnext
      cases hnext
    · rename_i heq
      rw [heq] at hnext
      cases hnext
    · rfl
  · refine List.any_eq_false.mpr fun cmd hcmd => ?_
    have := List.countP_eq_zero.mp htodo cmd hcmd
    cases cmd with
    | setPublicKey => exact absurd rfl this
    | save | setStatus | setLastActivity | setHandshakeCompleted | setVerified | setMessageTtl
    | clearPublicKeys | expire | delete | send | elsewhere => exact Bool.false_ne_true

theorem tame_of_exchanges {cmd : Command} (h : exchanges cmd = true) (a b : String) :
    cmd.Tame a b := by
  cases cmd with
  | save | setVerified | delete => cases h
  | setStatus | setLastActivity | setPublicKey | setHandshakeCompleted | setMessageTtl
  | clearPublicKeys | expire | send | elsewhere => trivial

/-- What a command of the exchange does to the stored keys. -/
theorem exec_storedKey (s : Store) (cmd : Command) (role : Role) : exchanges cmd = true →
    storedKey (s.exec cmd) role = match cmd with
      | .setPublicKey r key => if r = role then some key else storedKey s role
      | .clearPublicKeys => none
      | _ => storedKey s role := by
  intro h
  cases cmd with
  | save | setVerified | delete | setMessageTtl | expire => cases h
  | setPublicKey r key =>
      cases hs : s.hash <;> cases r <;> cases role <;>
        simp [storedKey, Store.exec, Command.fields, SessionHash.merge, hs]
  | clearPublicKeys =>
      cases hs : s.hash with
      | none => cases role <;> simp [storedKey, Store.exec, Command.fields, hs]
      | some hash =>
          rcases hash.clearPublicKeys_cases with hc | ⟨hc, -⟩ <;> cases role <;>
            simp [storedKey, Store.exec, Command.fields, hs, hc]
  | setStatus | setLastActivity | setHandshakeCompleted | send | elsewhere =>
      cases hs : s.hash <;> cases role <;>
        simp [storedKey, Store.exec, Command.fields, SessionHash.merge, hs]

theorem exec_outbox (s : Store) (cmd : Command) : exchanges cmd = true →
    (s.exec cmd).outbox = match cmd with
      | .send user event => s.outbox ++ [(user, event)]
      | _ => s.outbox := by
  intro h
  cases cmd with
  | save | setVerified | delete | setMessageTtl | expire => cases h
  | setPublicKey r key => cases r <;> rfl
  | clearPublicKeys | setStatus | setLastActivity | setHandshakeCompleted | send | elsewhere => rfl

theorem carries_cons (cmd : Command) (todo : List Command) (next : Option Handler) (role : Role)
    (key : String) :
    (Request.handling ⟨cmd :: todo, next⟩).carries parties role key
      = (storesKey role key cmd || (Request.handling ⟨todo, next⟩).carries parties role key) := by
  simp only [Request.carries, List.any_cons, Bool.or_left_comm]

variable {c : Conf Exchange Request} {i : Nat} {cmd : Command} {todo : List Command}
  {next : Option Handler}

theorem CallExchanging.tail (h : CallExchanging ⟨cmd :: todo, next⟩) :
    CallExchanging ⟨todo, next⟩ where
  commands x hx := h.commands x (List.mem_cons_of_mem _ hx)
  reads := h.reads
  single := by
    have := h.single
    simp only [load, List.countP_cons] at this ⊢
    omega

/-- A stored key is in one place, as it was before. -/
theorem command_places (hp : CallExchanging ⟨cmd :: todo, next⟩)
    (hi : c.pool[i]? = some (.handling ⟨cmd :: todo, next⟩)) (role : Role) (key : String) :
    places parties role key ⟨{ c.store with server := c.store.server.exec cmd },
      c.pool.set i (.handling ⟨todo, next⟩)⟩ ≤ places parties role key c := by
  have hcount := countP_turn (Request.carries parties role key) hi (.handling ⟨todo, next⟩)
  have hstored := exec_storedKey c.store.server cmd role
    (hp.commands cmd (List.mem_cons_self ..))
  rw [carries_cons] at hcount
  simp only [places, waiting]
  rw [hstored]
  cases cmd with
  | setPublicKey r k =>
      have hload : load ⟨todo, next⟩ = 0 := by
        have := hp.single
        simp only [load, List.countP_cons] at this ⊢
        simp only [if_true] at this
        omega
      rw [carries_of_load hload] at hcount
      simp only [storesKey, Bool.or_false, Bool.toNat_false] at hcount
      by_cases hr : r = role
      · by_cases hk : k = key
        · simp only [hr, hk, beq_self_eq_true, Bool.and_self, Bool.toNat_true] at hcount ⊢
          simp only [if_true]
          split <;> omega
        · simp only [hr, if_true, Option.some.injEq, hk, if_false]
          omega
      · simp only [if_neg hr]
        omega
  | clearPublicKeys =>
      simp only [storesKey, Bool.false_or] at hcount
      simp only [reduceCtorEq, if_false]
      omega
  | save | setStatus | setLastActivity | setHandshakeCompleted | setVerified | setMessageTtl
  | expire | delete | send | elsewhere =>
      simp only [storesKey, Bool.false_or] at hcount
      dsimp only
      omega

theorem command_leads (hp : CallExchanging ⟨cmd :: todo, next⟩)
    (hi : c.pool[i]? = some (.handling ⟨cmd :: todo, next⟩)) :
    Leads parties c ⟨{ c.store with server := c.store.server.exec cmd },
      c.pool.set i (.handling ⟨todo, next⟩)⟩ where
  waiting role key := by
    have hkeeps : Request.carries parties role key (.handling ⟨todo, next⟩) = true →
        Request.carries parties role key (.handling ⟨cmd :: todo, next⟩) = true := fun h => by
      rw [carries_cons, h, Bool.or_true]
    exact Nat.add_le_add_left (countP_turn_le hi hkeeps) _
  places role key := command_places hp hi role key
  clears role key hstored := by
    rw [exec_storedKey c.store.server cmd role (hp.commands cmd (List.mem_cons_self ..))] at hstored
    refine exists_turn hi fun hc => ?_
    cases cmd with
    | clearPublicKeys => cases hstored
    | save | setStatus | setLastActivity | setPublicKey | setHandshakeCompleted | setVerified
    | setMessageTtl | expire | delete | send | elsewhere => exact hc
  cleared := exists_of_turn hi fun hc => by
    simp only [Request.clears, List.any_cons, Bool.or_eq_true]
    exact .inr hc
  announced user key := by
    have houtbox := exec_outbox c.store.server cmd (hp.commands cmd (List.mem_cons_self ..))
    rintro (h | h)
    · refine .inl (exists_of_turn hi (fun hh => ?_) h)
      exact List.mem_cons_of_mem cmd hh
    · dsimp only at h
      rw [houtbox] at h
      cases cmd with
      | send recipient event =>
          rcases List.mem_append.mp h with h | h
          · exact .inr h
          · refine .inl ⟨_, List.mem_of_getElem? hi, ?_⟩
            obtain ⟨rfl, rfl⟩ := Prod.mk.inj (List.mem_singleton.mp h)
            exact List.mem_cons_self ..
      | save | setStatus | setLastActivity | setPublicKey | setHandshakeCompleted | setVerified
      | setMessageTtl | clearPublicKeys | expire | delete | elsewhere => exact .inr h

/-! ## Reads -/

/-- A step of one request that neither touches the store nor starts a relay. -/
theorem request_leads {p p' : Request} (hi : c.pool[i]? = some p)
    (hcarries : ∀ role key, p'.carries parties role key = true → p.carries parties role key = true)
    (hclears : p.clears = false) (hrelays : p'.relays = false) :
    Leads parties c ⟨c.store, c.pool.set i p'⟩ := by
  have hwaiting : ∀ role key, waiting parties role key ⟨c.store, c.pool.set i p'⟩
      ≤ waiting parties role key c := fun role key =>
    Nat.add_le_add_left (countP_turn_le hi (hcarries role key)) _
  have hno : ¬ (p'.clears = true ∨ ∃ user key, p'.hands user key) := by
    rw [← Request.relays_iff, hrelays]
    exact Bool.false_ne_true
  refine ⟨hwaiting, fun role key => Nat.add_le_add_right (hwaiting role key) _, ?_, ?_, ?_⟩
  · exact fun role key _ => exists_turn hi fun h => by rw [hclears] at h; cases h
  · exact exists_of_turn hi fun h => absurd (.inl h) hno
  · rintro user key (h | h)
    · exact .inl (exists_of_turn hi (fun hh => absurd (.inr ⟨user, key, hh⟩) hno) h)
    · exact .inr h

variable {session : Session} {handler : Handler}

theorem sendTo_exchanges {recipient : Option String} {event : Event}
    (h : ∀ user, exchanges (.send user event) = true) :
    ∀ cmd ∈ sendTo recipient event, exchanges cmd = true := by
  intro cmd hcmd
  unfold sendTo at hcmd
  split at hcmd
  · obtain rfl := List.mem_singleton.mp hcmd
    exact h _
  · cases hcmd

theorem sendTo_load (recipient : Option String) (event : Event) :
    (sendTo recipient event).countP
      (fun cmd => match cmd with | .setPublicKey _ _ => true | _ => false) = 0 := by
  unfold sendTo
  split <;> rfl

/-- After the last read of an exchange no key is carried. -/
theorem afterPublicKeyAtomic_exchanging (session : Session) (now : Nat) (status : SessionStatus)
    (peer : Option String) :
    CallExchanging ⟨afterPublicKeyAtomic session now status peer, none⟩
      ∧ load ⟨afterPublicKeyAtomic session now status peer, none⟩ = 0 := by
  have hload : load ⟨afterPublicKeyAtomic session now status peer, none⟩ = 0 := by
    simp only [load, afterPublicKeyAtomic]
    split
    · simp only [List.countP_append, sendTo_load]
      split <;> rfl
    · split
      · simp only [sendTo_load]
      · rfl
  refine ⟨⟨?_, (fun _ h => by cases h), by omega⟩, hload⟩
  intro cmd hcmd
  unfold afterPublicKeyAtomic at hcmd
  split at hcmd
  · simp only [List.mem_append] at hcmd
    rcases hcmd with ((hcmd | hcmd) | hcmd) | hcmd
    · exact sendTo_exchanges (fun _ => rfl) cmd hcmd
    · exact sendTo_exchanges (fun _ => rfl) cmd hcmd
    · split at hcmd
      · obtain rfl := List.mem_singleton.mp hcmd
        rfl
      · cases hcmd
    · simp only [List.mem_cons, List.not_mem_nil, or_false] at hcmd
      rcases hcmd with rfl | rfl | rfl | rfl <;> rfl
  · split at hcmd
    · exact sendTo_exchanges (fun _ => rfl) cmd hcmd
    · cases hcmd

/-- A request of the exchange stays one, read by read. -/
theorem found_exchanging (cfg : Config) (now : Nat) (hh : exchangeRead handler = true) :
    CallExchanging ⟨(cfg.found now handler (some session)).1,
      (cfg.found now handler (some session)).2⟩ := by
  cases handler with
  | relayKey sender key =>
      simp only [Config.found, fail]
      repeat' split
      all_goals exact ⟨by simp [exchanges], by simp [exchangeRead], by simp [load]⟩
  | setPublicKey sender key status peer =>
      simp only [Config.found]
      repeat' split
      all_goals exact ⟨by simp [exchanges], by simp [exchangeRead], by simp [load]⟩
  | afterPublicKey sender status peer =>
      exact (afterPublicKeyAtomic_exchanging session now status peer).1
  | accept | reject | confirm | updateVerification | emitConfirmation | mismatch | sendMessage
  | resume | listSessions | setMessageTtl | burn | burnAll => cases hh

/-- A read passes on the key it was given, for the side it came from. -/
theorem found_carries (cfg : Config) (now : Nat) (hh : exchangeRead handler = true)
    (ha : session.initiatorInternalId = some parties.initiator)
    (hb : session.responderInternalId = some parties.responder) {role : Role} {key : String}
    (h : (Request.handling ⟨(cfg.found now handler (some session)).1,
      (cfg.found now handler (some session)).2⟩).carries parties role key = true) :
    (Request.handling ⟨[], some handler⟩).carries parties role key = true := by
  cases handler with
  | relayKey sender k =>
      simp only [Config.found, fail] at h
      repeat' split at h
      all_goals simp_all [Request.carries, passes, storesKey]
  | setPublicKey sender k status peer =>
      simp only [Config.found, Session.isInitiator, Session.isResponder, ha, hb, beq_iff_eq,
        Option.some.injEq] at h
      split at h
      · rename_i hs
        cases role <;> simp_all [Request.carries, passes, storesKey, Parties.id]
      · split at h
        · rename_i hs
          cases role <;> simp_all [Request.carries, passes, storesKey, Parties.id]
        · simp [Request.carries, passes] at h
  | afterPublicKey sender status peer =>
      simp only [Config.found] at h
      rw [carries_of_load (afterPublicKeyAtomic_exchanging session now status peer).2] at h
      cases h
  | accept | reject | confirm | updateVerification | emitConfirmation | mismatch | sendMessage
  | resume | listSessions | setMessageTtl | burn | burnAll => cases hh

theorem sendTo_relays {recipient : Option String} {event : Event}
    (h : ∀ user, isRelay (.send user event) = false) :
    (sendTo recipient event).any isRelay = false := by
  unfold sendTo
  split
  · simp [h]
  · rfl

/-- A relay starts only where both keys are found. -/
theorem found_relays (cfg : Config) (now : Nat) (hh : exchangeRead handler = true)
    (hno : ∀ sender status peer, handler = .afterPublicKey sender status peer →
      session.areBothKeysReady = false) :
    (Request.handling ⟨(cfg.found now handler (some session)).1,
      (cfg.found now handler (some session)).2⟩).relays = false := by
  cases handler with
  | relayKey sender key =>
      simp only [Config.found, fail]
      repeat' split
      all_goals rfl
  | setPublicKey sender key status peer =>
      simp only [Config.found]
      repeat' split
      all_goals rfl
  | afterPublicKey sender status peer =>
      have hready := hno sender status peer rfl
      simp only [Config.found, afterPublicKeyAtomic, Request.relays]
      split
      · rename_i hi hr
        simp [Session.areBothKeysReady, hi, hr] at hready
      · split
        · exact sendTo_relays fun _ => rfl
        · rfl
  | accept | reject | confirm | updateVerification | emitConfirmation | mismatch | sendMessage
  | resume | listSessions | setMessageTtl | burn | burnAll => cases hh

/-! ## The start of a relay -/

theorem publicKeys_of_findById {cfg : Config} {s : Store} (h : cfg.findById s = some session) :
    session.initiatorPublicKey = storedKey s .initiator
      ∧ session.responderPublicKey = storedKey s .responder := by
  obtain ⟨hash, hs, rfl⟩ := Option.map_eq_some_iff.mp h
  simp [storedKey, hs, Config.mapToSession]

theorem mem_sendTo {recipient : Option String} {event : Event} {cmd : Command}
    (h : cmd ∈ sendTo recipient event) : ∃ user, recipient = some user ∧ cmd = .send user event := by
  unfold sendTo at h
  split at h
  · rename_i htext
    cases recipient with
    | none => cases htext
    | some user => exact ⟨user, rfl, List.mem_singleton.mp h⟩
  · cases h

/-- A relay hands each side the other's key, and clears both. -/
theorem afterPublicKeyAtomic_relay {x : Role → String} {now : Nat} {status : SessionStatus}
    {peer : Option String} (ha : session.initiatorInternalId = some parties.initiator)
    (hb : session.responderInternalId = some parties.responder)
    (hi : session.initiatorPublicKey = some (x .initiator))
    (hr : session.responderPublicKey = some (x .responder)) :
    (Request.handling ⟨afterPublicKeyAtomic session now status peer, none⟩).clears = true
      ∧ ∀ role key, (Request.handling ⟨afterPublicKeyAtomic session now status peer, none⟩).hands
        (parties.id role) key → key = x role.peer := by
  simp only [afterPublicKeyAtomic, hi, hr, ha, hb]
  refine ⟨by simp [Request.clears], fun role key hh => ?_⟩
  simp only [Request.hands, List.mem_append] at hh
  rcases hh with ((hh | hh) | hh) | hh
  · obtain ⟨user, huser, heq⟩ := mem_sendTo hh
    obtain rfl := Option.some.inj huser
    obtain ⟨hid, hkey⟩ := Command.send.inj heq
    obtain rfl := Event.peerPublicKey.inj hkey
    cases role with
    | initiator => rfl
    | responder => exact absurd hid (Ne.symm parties.distinct)
  · obtain ⟨user, huser, heq⟩ := mem_sendTo hh
    obtain rfl := Option.some.inj huser
    obtain ⟨hid, hkey⟩ := Command.send.inj heq
    obtain rfl := Event.peerPublicKey.inj hkey
    cases role with
    | initiator => exact absurd hid parties.distinct
    | responder => rfl
  · split at hh
    · cases List.mem_singleton.mp hh
    · cases hh
  · simp at hh

/-- A relay of the clients' current keys keeps the invariant. -/
theorem Agreeing.relay_start {sys : System} {p p' : Request} {x : Role → String}
    (h : Agreeing sys c) (hi : c.pool[i]? = some p)
    (hstored : ∀ role, storedKey c.store.server role = some (x role))
    (hcurrent : ∀ role, ∃ keys, (c.store.clients role).keys = some keys ∧ keys.keyPair = x role)
    (hexchanging : p'.Exchanging)
    (hcarries : ∀ role key, p'.carries sys.parties role key = false) (hclears : p'.clears = true)
    (hhands : ∀ role key, p'.hands (sys.parties.id role) key → key = x role.peer) :
    Agreeing sys ⟨c.store, c.pool.set i p'⟩ := by
  have hwaiting : ∀ role key, waiting sys.parties role key ⟨c.store, c.pool.set i p'⟩
      ≤ waiting sys.parties role key c := fun role key =>
    Nat.add_le_add_left (countP_turn_le hi fun hc => by rw [hcarries] at hc; cases hc) _
  have hplaces : ∀ role key, places sys.parties role key ⟨c.store, c.pool.set i p'⟩
      ≤ places sys.parties role key c := fun role key =>
    Nat.add_le_add_right (hwaiting role key) _
  have hcleared : ∃ q ∈ c.pool.set i p', q.clears = true :=
    ⟨p', List.mem_set (List.getElem?_eq_some_iff.mp hi).1 _, hclears⟩
  -- a relay under way is of the same keys
  have hsame : underWay c = true → ∃ y, Relaying sys.parties y c ∧ y = x := fun hu => by
    obtain ⟨y, hy⟩ := h.relay hu
    refine ⟨y, hy, funext fun role => ?_⟩
    obtain ⟨keys, hk, hx⟩ := hcurrent role
    rw [← hx, hy.own role keys hk]
  refine ⟨h.between, forall_turn h.exchanging hexchanging, ?_, ?_, h.sound, ?_, fun _ => ⟨x, ?_⟩,
    h.agree⟩
  · exact fun role key hkey => Nat.le_zero.mp (h.fresh role key hkey ▸ hplaces role key)
  · exact fun role key => Nat.le_trans (hplaces role key) (h.once role key)
  · intro role keys hk
    exact ⟨Nat.le_zero.mp ((h.spent role keys hk).1 ▸ hwaiting role _), fun _ => hcleared⟩
  · refine ⟨fun role => ⟨?_, fun _ => hcleared⟩, ?_, ?_, ?_⟩
    · have honce := h.once role (x role)
      simp only [places, hstored, if_true] at honce
      have := hwaiting role (x role)
      omega
    · intro role key hann
      by_cases hnew : p'.hands (sys.parties.id role) key
      · exact hhands role key hnew
      · have hold : Announced (sys.parties.id role) key c := by
          rcases hann with hann | hann
          · exact .inl (exists_of_turn hi (fun hh => absurd hh hnew) hann)
          · exact .inr hann
        obtain ⟨y, hy, rfl⟩ := hsame (underWay_iff.mpr (.inr ⟨_, _, hold⟩))
        exact hy.handed role key hold
    · intro role keys hk
      obtain ⟨keys', hk', hx⟩ := hcurrent role
      obtain rfl := Option.some.inj (hk.symm.trans hk')
      exact hx
    · intro role keys hk
      obtain ⟨keys', hk', hx⟩ := hcurrent role
      obtain rfl := Option.some.inj (hk.1.symm.trans hk')
      -- whoever holds a secret from a stored key has it from a relay under way
      have hu : underWay c = true :=
        underWay_iff.mpr (.inl ((h.spent role keys hk).2 (by rw [hx]; exact hstored role)))
      obtain ⟨y, hy, rfl⟩ := hsame hu
      exact hy.held role keys hk

/-! ## Clients -/

variable {crypto : Crypto} {client : Client}

theorem Client.Sound.of_keys_none (hk : client.keys = none) (hs : client.stage ≠ .complete) :
    client.Sound crypto :=
  ⟨fun h => absurd h hs, fun keys secret h => by rw [hk] at h; cases h⟩

/-- A client with the same keys that shows `complete` only with a secret. -/
theorem Client.Sound.of_keys_eq {client' : Client} (h : client.Sound crypto)
    (hk : client'.keys = client.keys)
    (hs : client'.stage = .complete → client.isHandshakeComplete = true) :
    client'.Sound crypto where
  complete hc := by
    have := hs hc
    rw [isHandshakeComplete] at this ⊢
    rw [hk]
    exact this
  secret keys secret hkeys := h.secret keys secret (hk ▸ hkeys)

/-- What the arrival of an event does to the keys of a client. -/
theorem Client.receive_cases (crypto : Crypto) (event : Event) (client : Client) :
    (client.receive crypto event).keys = client.keys
      ∨ (client.receive crypto event).keys = none
      ∨ ∃ key keys, event = .peerPublicKey key ∧ client.keys = some keys
        ∧ (client.receive crypto event).keys = some { keys with
          peerPublicKey := some key
          sharedSecret := some (crypto.sharedSecret keys.keyPair key) } := by
  cases event with
  | peerPublicKey key =>
      simp only [receive, handlePeerPublicKey, processPeerKey]
      split
      · cases hk : client.keys with
        | none => exact .inr (.inl rfl)
        | some keys => exact .inr (.inr ⟨key, keys, rfl, rfl, rfl⟩)
      · exact .inl rfl
  | error code =>
      simp only [receive, handlePeerPublicKey, processPeerKey]
      split
      · exact .inr (.inl rfl)
      · exact .inl rfl
  | keyRefresh =>
      simp only [receive, handleKeyRefresh]
      split <;> exact .inl rfl
  | verification | mismatch | notice => exact .inl rfl

theorem Client.Sound.receive (h : client.Sound crypto) (event : Event) :
    (client.receive crypto event).Sound crypto := by
  have herror : client.handleError.Sound crypto := of_keys_none rfl (by simp [handleError])
  cases event with
  | peerPublicKey key =>
      simp only [Client.receive, handlePeerPublicKey, processPeerKey]
      split
      · cases hk : client.keys with
        | none => exact herror
        | some keys =>
            refine ⟨fun _ => rfl, fun keys' secret hkeys hsecret => ?_⟩
            obtain rfl := Option.some.inj hkeys
            obtain rfl := Option.some.inj hsecret
            exact ⟨key, rfl, rfl⟩
      · exact h.of_keys_eq rfl h.complete
  | error code =>
      simp only [Client.receive, handlePeerPublicKey, processPeerKey]
      split
      · exact herror
      · exact h.of_keys_eq rfl h.complete
  | keyRefresh =>
      simp only [Client.receive, handleKeyRefresh]
      split
      · exact h
      · exact h.of_keys_eq rfl h.complete
  | verification | mismatch | notice => exact h

theorem Client.Sound.cancelHandshake (h : client.Sound crypto) :
    client.cancelHandshake.Sound crypto := by
  unfold Client.cancelHandshake
  split
  · exact of_keys_none rfl (by simp)
  · exact h.of_keys_eq rfl (by simp)

/-- A call of `startHandshake` either keeps the keys and publishes nothing, or
publishes the key of a new pair. -/
def Starts (crypto : Crypto) (client : Client) (r : Client × Option String) : Prop :=
  r.1.Sound crypto ∧ (r.2 = none ∧ r.1.keys = client.keys
    ∨ ∃ key, r.2 = some key ∧ r.1.keys = some { keyPair := key })

theorem Client.Sound.startHandshake (h : client.Sound crypto) (isConnected forceRefresh : Bool)
    (newKey : String) :
    Starts crypto client (client.startHandshake crypto isConnected forceRefresh newKey) := by
  unfold Client.startHandshake
  split
  · exact ⟨h.of_keys_eq rfl (by simp), .inl ⟨rfl, rfl⟩⟩
  · dsimp only
    split
    · exact ⟨h.of_keys_eq rfl h.complete, .inl ⟨rfl, rfl⟩⟩
    · split
      · rename_i hrestored
        simp only [Bool.and_eq_true] at hrestored
        exact ⟨h.of_keys_eq rfl fun _ => hrestored.2, .inl ⟨rfl, rfl⟩⟩
      · refine ⟨⟨by simp, fun keys secret hkeys hsecret => ?_⟩, .inr ⟨newKey, rfl, rfl⟩⟩
        obtain rfl := Option.some.inj hkeys
        cases hsecret

theorem System.refreshed_starts (sys : System) {e : Exchange} {role : Role}
    (h : (e.clients role).Sound sys.crypto) (inChat : Bool) (newKey : String) :
    Starts sys.crypto (e.clients role) (sys.refreshed e role inChat newKey) := by
  have hclient : { e.clients role with keyRefresh := false }.Sound sys.crypto :=
    h.of_keys_eq rfl h.complete
  unfold refreshed
  dsimp only
  split
  · exact hclient.startHandshake true true newKey
  · exact ⟨hclient, .inl ⟨rfl, rfl⟩⟩

/-! ## Moves of the clients -/

variable {sys : System} {e' : Exchange}

/-- No request and no submission moves, and no event is added. -/
theorem env_leads (hinbox : e'.inbox = c.store.inbox)
    (hhash : e'.server.hash = c.store.server.hash)
    (houtbox : ∀ x ∈ e'.server.outbox, x ∈ c.store.server.outbox) :
    Leads parties c ⟨e', c.pool⟩ := by
  have hstored : ∀ role, storedKey e'.server role = storedKey c.store.server role := by
    intro role
    cases role <;> simp [storedKey, hhash]
  refine ⟨fun role key => ?_, fun role key => ?_, fun _ _ _ h => h, fun h => h, ?_⟩
  · simp [waiting, hinbox]
  · simp [places, waiting, hinbox, hstored]
  · rintro user key (h | h)
    · exact .inl h
    · exact .inr (houtbox _ h)

theorem Agreeing.env (h : Agreeing sys c) (hinbox : e'.inbox = c.store.inbox)
    (hhash : e'.server.hash = c.store.server.hash)
    (houtbox : ∀ x ∈ e'.server.outbox, x ∈ c.store.server.outbox)
    (hgenerated : e'.generated = c.store.generated)
    (hkeys : ∀ role, (e'.clients role).keys = (c.store.clients role).keys
      ∨ (e'.clients role).keys = none)
    (hsound : ∀ role, (e'.clients role).Sound sys.crypto) : Agreeing sys ⟨e', c.pool⟩ := by
  refine Leads.agreeing h (env_leads hinbox hhash houtbox) ?_ h.exchanging hgenerated hkeys hsound
  obtain ⟨hash, hs, ha, hb⟩ := h.between
  exact ⟨hash, hhash.trans hs, ha, hb⟩

/-- One client changes, and has no other keys than before. -/
theorem Agreeing.client_step (h : Agreeing sys c) {role : Role} {client' : Client}
    (hkeys : client'.keys = (c.store.clients role).keys ∨ client'.keys = none)
    (hsound : client'.Sound sys.crypto) :
    Agreeing sys ⟨{ c.store with clients := Function.update c.store.clients role client' },
      c.pool⟩ := by
  refine h.env rfl rfl (fun _ hx => hx) rfl (fun other => ?_) fun other => ?_
  · by_cases ho : other = role
    · subst ho
      simpa using hkeys
    · simp [Function.update_of_ne ho]
  · by_cases ho : other = role
    · subst ho
      simpa using hsound
    · simpa [Function.update_of_ne ho] using h.sound other

/-- During a relay, whoever holds secrets agrees. -/
theorem Relaying.agree {x : Role → String} (h : Relaying parties x c) {role : Role}
    {keys keys' : SessionKeys} (hk : (c.store.clients role).Holds keys)
    (hk' : (c.store.clients role.peer).Holds keys') : keys.peerPublicKey = some keys'.keyPair := by
  rw [h.held role keys hk, h.own role.peer keys' hk'.1]

/-- The arrival of the peer's key completes a handshake. -/
theorem Agreeing.completes (h : Agreeing sys c) {j : Nat} {role : Role} {key : String}
    {keys : SessionKeys} {client' : Client}
    (hj : (sys.parties.id role, .peerPublicKey key) ∈ c.store.server.outbox)
    (hkeys : (c.store.clients role).keys = some keys)
    (hkeys' : client'.keys = some { keys with
      peerPublicKey := some key
      sharedSecret := some (sys.crypto.sharedSecret keys.keyPair key) })
    (hsound : client'.Sound sys.crypto) :
    let server := { c.store.server with outbox := c.store.server.outbox.eraseIdx j }
    Agreeing sys ⟨{ c.store with
      server := server
      clients := Function.update c.store.clients role client' }, c.pool⟩ := by
  intro server
  have hann : Announced (sys.parties.id role) key c := .inr hj
  obtain ⟨x, hx⟩ := h.relay (underWay_iff.mpr (.inr ⟨_, _, hann⟩))
  have hkey := hx.handed role key hann
  have hown := hx.own role keys hkeys
  have hl : Leads sys.parties c ⟨{ c.store with
      server := server
      clients := Function.update c.store.clients role client' }, c.pool⟩ :=
    env_leads rfl rfl fun _ hm => List.mem_of_mem_eraseIdx hm
  have hx' : Relaying sys.parties x ⟨{ c.store with
      server := server
      clients := Function.update c.store.clients role client' }, c.pool⟩ := by
    refine ⟨fun r => hl.spent (hx.spent r), fun r k ha => hx.handed r k (hl.announced _ _ ha),
      ?_, ?_⟩
    · intro r ks hks
      by_cases hr : r = role
      · subst hr
        simp only [Function.update_self, hkeys'] at hks
        obtain rfl := Option.some.inj hks
        exact hown
      · simp only [Function.update_of_ne hr] at hks
        exact hx.own r ks hks
    · intro r ks hks
      by_cases hr : r = role
      · subst hr
        simp only [Client.Holds, Function.update_self, hkeys'] at hks
        obtain rfl := Option.some.inj hks.1
        rw [hkey]
      · simp only [Function.update_of_ne hr] at hks
        exact hx.held r ks hks
  refine ⟨h.between, h.exchanging, ?_, ?_, ?_, ?_, fun _ => ⟨x, hx'⟩, ?_⟩
  · exact fun r k hk => Nat.le_zero.mp (h.fresh r k hk ▸ hl.places r k)
  · exact fun r k => Nat.le_trans (hl.places r k) (h.once r k)
  · intro r
    by_cases hr : r = role
    · subst hr
      simpa using hsound
    · simpa [Function.update_of_ne hr] using h.sound r
  · intro r ks hks
    rw [hx'.own r ks hks.1]
    exact hx'.spent r
  · exact fun r ks ks' hks hks' => hx'.agree hks hks'

/-- A new key pair, made while no relay is under way. -/
theorem Agreeing.creates (h : Agreeing sys c) {role : Role} {key : String} {client' : Client}
    (hquiet : underWay c = false) (hfresh : key ∉ c.store.generated)
    (hkeys : client'.keys = some { keyPair := key }) (hsound : client'.Sound sys.crypto) :
    Agreeing sys ⟨{ c.store with
      clients := Function.update c.store.clients role client'
      inbox := c.store.inbox ++ [(role, key)]
      generated := key :: c.store.generated }, c.pool⟩ := by
  have hcount : ∀ r k, (c.store.inbox ++ [(role, key)]).count (r, k)
      = c.store.inbox.count (r, k) + if (role, key) = (r, k) then 1 else 0 := fun r k => by
    rw [List.count_append, List.count_singleton]
    by_cases heq : (role, key) = (r, k) <;> simp [heq]
  have hnone : ∀ keys, ¬ client'.Holds keys := fun keys hk => by
    obtain ⟨hk, hs⟩ := hk
    rw [hkeys] at hk
    obtain rfl := Option.some.inj hk
    cases hs
  refine ⟨h.between, h.exchanging, ?_, ?_, ?_, ?_, ?_, ?_⟩
  · intro r k hk
    simp only [List.mem_cons, not_or] at hk
    have hold := h.fresh r k hk.2
    simp only [places, waiting, hcount] at hold ⊢
    rw [if_neg fun heq => hk.1 (Prod.mk.inj heq).2.symm]
    exact hold
  · intro r k
    have hold := h.once r k
    simp only [places, waiting, hcount] at hold ⊢
    by_cases heq : (role, key) = (r, k)
    · obtain ⟨rfl, rfl⟩ := Prod.mk.inj heq
      have hzero := h.fresh role key hfresh
      simp only [places, waiting] at hzero
      rw [if_pos rfl]
      omega
    · rw [if_neg heq]
      omega
  · intro r
    by_cases hr : r = role
    · subst hr
      simpa using hsound
    · simpa [Function.update_of_ne hr] using h.sound r
  · intro r ks hks
    by_cases hr : r = role
    · subst hr
      simp only [Function.update_self] at hks
      exact absurd hks (hnone ks)
    · simp only [Function.update_of_ne hr] at hks
      obtain ⟨hw, hc⟩ := h.spent r ks hks
      refine ⟨?_, hc⟩
      simp only [waiting, hcount] at hw ⊢
      rw [if_neg fun heq => hr (Prod.mk.inj heq).1.symm]
      exact hw
  · intro hu
    have hu' : underWay c = true := hu
    rw [hquiet] at hu'
    cases hu'
  · intro r ks ks' hks hks'
    by_cases hr : r = role
    · subst hr
      simp only [Function.update_self] at hks
      exact absurd hks (hnone ks)
    · have hpeer : r.peer = role := by
        cases r <;> cases role <;> first | rfl | exact absurd rfl hr
      rw [hpeer] at hks'
      simp only [Function.update_self] at hks'
      exact absurd hks' (hnone ks')

/-! ## Runs -/

theorem Parties.id_injective (parties : Parties) {r r' : Role} (h : parties.id r = parties.id r') :
    r = r' := by
  cases r with
  | initiator =>
      cases r' with
      | initiator => rfl
      | responder => exact absurd h parties.distinct
  | responder =>
      cases r' with
      | initiator => exact absurd h.symm parties.distinct
      | responder => rfl

theorem Parties.id_of_role? {parties : Parties} {user : String} {role : Role}
    (h : parties.role? user = some role) : user = parties.id role := by
  unfold role? at h
  split at h
  · rename_i hu
    obtain rfl := Option.some.inj h
    exact hu
  · split at h
    · rename_i hu
      obtain rfl := Option.some.inj h
      exact hu
    · cases h

/-- A request takes up a submission. -/
theorem System.receive_leads (sys : System) {j : Nat} {role : Role} {key : String}
    (hi : c.pool[i]? = some (.receiving j)) (hj : c.store.inbox[j]? = some (role, key)) :
    Leads sys.parties c ⟨{ c.store with inbox := c.store.inbox.eraseIdx j },
      c.pool.set i (.handling (sys.receive role key))⟩ := by
  have hcarries : ∀ r k, (Request.handling (sys.receive role key)).carries sys.parties r k = true →
      (role, key) = (r, k) := fun r k h => by
    unfold receive at h
    split at h
    · simp only [Request.carries, Call.arriving, passes, List.any_nil, Bool.or_false,
        Bool.and_eq_true, beq_iff_eq] at h
      rw [sys.parties.id_injective h.1, h.2]
    · simp [Request.carries, passes, storesKey] at h
  have hrelays : (Request.handling (sys.receive role key)).relays = false := by
    unfold receive
    split <;> rfl
  have hno : ¬ ((Request.handling (sys.receive role key)).clears = true
      ∨ ∃ user k, (Request.handling (sys.receive role key)).hands user k) := by
    rw [← Request.relays_iff, hrelays]
    exact Bool.false_ne_true
  have hwaiting : ∀ r k, waiting sys.parties r k ⟨{ c.store with
      inbox := c.store.inbox.eraseIdx j }, c.pool.set i (.handling (sys.receive role key))⟩
      ≤ waiting sys.parties r k c := fun r k => by
    have hcount := countP_turn (Request.carries sys.parties r k) hi
      (.handling (sys.receive role key))
    have hperm := (List.getElem_cons_eraseIdx_perm (List.getElem?_eq_some_iff.mp hj).1).count_eq
      (r, k)
    rw [(List.getElem?_eq_some_iff.mp hj).2, List.count_cons] at hperm
    simp only [waiting]
    cases hc : (Request.handling (sys.receive role key)).carries sys.parties r k with
    | false =>
        rw [hc] at hcount
        simp only [Bool.toNat_false] at hcount
        omega
    | true =>
        rw [hc, Request.carries] at hcount
        simp only [Bool.toNat_true, Bool.toNat_false] at hcount
        simp only [hcarries r k hc, beq_self_eq_true, if_true] at hperm
        omega
  refine ⟨hwaiting, fun r k => Nat.add_le_add_right (hwaiting r k) _, ?_, ?_, ?_⟩
  · exact fun r k _ => exists_turn hi fun h => by cases h
  · exact exists_of_turn hi fun h => absurd (.inl h) hno
  · rintro user k (h | h)
    · exact .inl (exists_of_turn hi (fun hh => absurd (.inr ⟨user, k, hh⟩) hno) h)
    · exact .inr h

/-- The read of a request. -/
theorem System.read_agreeing (sys : System) {handler : Handler} (h : Agreeing sys c)
    (hi : c.pool[i]? = some (.handling ⟨[], some handler⟩))
    (hg : sys.steady c (.turn i) = true) :
    let r := sys.cfg.found c.store.server.now handler (sys.cfg.findById c.store.server)
    Agreeing sys ⟨c.store, c.pool.set i (.handling ⟨r.1, r.2⟩)⟩ := by
  have hp : CallExchanging ⟨[], some handler⟩ := h.exchanging _ (List.mem_of_getElem? hi)
  have hh := hp.reads handler rfl
  obtain ⟨session, hfound, ha, hb⟩ := h.between.found sys.cfg sys.parties.initiator_text
    sys.parties.responder_text
  rw [hfound]
  intro r
  have hexchanging : CallExchanging ⟨r.1, r.2⟩ := found_exchanging sys.cfg _ hh
  by_cases hrelay : ∃ sender status peer, handler = .afterPublicKey sender status peer
      ∧ session.areBothKeysReady = true
  · obtain ⟨sender, status, peer, rfl, hready⟩ := hrelay
    obtain ⟨hik, hrk⟩ := publicKeys_of_findById hfound
    simp only [Session.areBothKeysReady, Bool.and_eq_true, Option.isSome_iff_exists] at hready
    obtain ⟨⟨ki, hki⟩, kr, hkr⟩ := hready
    simp only [steady, hi, hfound, Session.areBothKeysReady, hki, hkr, Option.isSome_some,
      Bool.and_self, Bool.not_true, Bool.false_or, current, Bool.and_eq_true, beq_iff_eq,
      Option.map_eq_some_iff] at hg
    let x : Role → String := fun role => match role with | .initiator => ki | .responder => kr
    have hstored : ∀ role, storedKey c.store.server role = some (x role) := fun role => by
      cases role with
      | initiator => exact hik ▸ hki
      | responder => exact hrk ▸ hkr
    have hcurrent : ∀ role, ∃ keys, (c.store.clients role).keys = some keys
        ∧ keys.keyPair = x role := fun role => by
      cases role with
      | initiator => exact hg.1
      | responder => exact hg.2
    have hxi : session.initiatorPublicKey = some (x .initiator) := hki
    have hxr : session.responderPublicKey = some (x .responder) := hkr
    obtain ⟨hclears, hhands⟩ := afterPublicKeyAtomic_relay ha hb hxi hxr
    exact h.relay_start hi hstored hcurrent hexchanging
      (carries_of_load (afterPublicKeyAtomic_exchanging session _ status peer).2) hclears hhands
  · refine Leads.agreeing h (request_leads hi ?_ rfl ?_) h.between
      (forall_turn h.exchanging hexchanging) rfl (fun _ => .inl rfl) h.sound
    · exact fun role key => found_carries sys.cfg _ hh ha hb
    · refine found_relays sys.cfg _ hh fun sender status peer heq => ?_
      rw [← Bool.not_eq_true]
      exact fun hready => hrelay ⟨sender, status, peer, heq, hready⟩

theorem System.receive_exchanging (sys : System) (role : Role) (key : String) :
    CallExchanging (sys.receive role key) := by
  unfold receive
  split
  · exact ⟨by simp [Call.arriving], by simp [Call.arriving, exchangeRead],
      by simp [Call.arriving, load]⟩
  · exact ⟨by simp [exchanges], by simp, by simp [load]⟩

/-- A call of `startHandshake`, whatever led to it. -/
theorem Agreeing.started (h : Agreeing sys c) {role : Role} {r : Client × Option String}
    (hr : Starts sys.crypto (c.store.clients role) r)
    (hfresh : ∀ key, r.2 = some key → key ∉ c.store.generated ∧ underWay c = false) :
    Agreeing sys ⟨System.started c.store role r, c.pool⟩ := by
  obtain ⟨hsound, ⟨hnone, hkeys⟩ | ⟨key, hsome, hkeys⟩⟩ := hr
  · simp only [System.started, hnone]
    exact h.client_step (.inl hkeys) hsound
  · simp only [System.started, hsome]
    obtain ⟨hgen, hquiet⟩ := hfresh key hsome
    exact h.creates hquiet hgen hkeys hsound

/-- The move of a client, or the delivery of an event. -/
theorem System.move_agreeing (sys : System) {m : Move} (h : Agreeing sys c)
    (hfresh : ∀ key, sys.newKey c.store m = some key →
      key ∉ c.store.generated ∧ underWay c = false)
    (hm : sys.move m c.store = some e') : Agreeing sys ⟨e', c.pool⟩ := by
  cases m with
  | startHandshake role isConnected forceRefresh newKey =>
      obtain rfl := Option.some.inj hm
      exact h.started ((h.sound role).startHandshake isConnected forceRefresh newKey) hfresh
  | refreshKeys role inChat newKey =>
      simp only [move] at hm
      split at hm
      · obtain rfl := Option.some.inj hm
        exact h.started (sys.refreshed_starts (h.sound role) inChat newKey) hfresh
      · cases hm
  | timeout role =>
      simp only [move] at hm
      split at hm
      · obtain rfl := Option.some.inj hm
        exact h.client_step (.inr rfl) (.of_keys_none rfl (by simp [Client.handleError]))
      · cases hm
  | cancelHandshake role =>
      obtain rfl := Option.some.inj hm
      refine h.client_step ?_ (h.sound role).cancelHandshake
      unfold Client.cancelHandshake
      split
      · exact .inr rfl
      · exact .inl rfl
  | reload role =>
      obtain rfl := Option.some.inj hm
      exact h.client_step (.inr rfl) (.of_keys_none rfl (by simp))
  | deliver j =>
      simp only [move] at hm
      cases hj : c.store.server.outbox[j]? with
      | none => simp [hj] at hm
      | some x =>
          obtain ⟨user, event⟩ := x
          simp only [hj] at hm
          cases hrole : sys.parties.role? user with
          | none =>
              simp only [hrole] at hm
              obtain rfl := Option.some.inj hm
              exact h.env rfl rfl (fun _ hx => List.mem_of_mem_eraseIdx hx) rfl (fun _ => .inl rfl)
                h.sound
          | some role =>
              simp only [hrole] at hm
              obtain rfl := Option.some.inj hm
              have hsound := (h.sound role).receive event
              rcases (c.store.clients role).receive_cases sys.crypto event with
                hkeys | hkeys | ⟨key, keys, rfl, hold, hkeys⟩
              · exact (h.client_step (.inl hkeys) hsound).env rfl rfl
                  (fun _ hx => List.mem_of_mem_eraseIdx hx) rfl (fun _ => .inl rfl)
                  (h.client_step (.inl hkeys) hsound).sound
              · exact (h.client_step (.inr hkeys) hsound).env rfl rfl
                  (fun _ hx => List.mem_of_mem_eraseIdx hx) rfl (fun _ => .inl rfl)
                  (h.client_step (.inr hkeys) hsound).sound
              · have hmem := List.mem_of_getElem? hj
                rw [Parties.id_of_role? hrole] at hmem
                exact h.completes hmem hold hkeys hsound
  | tick ms =>
      obtain rfl := Option.some.inj hm
      exact h.env rfl rfl (fun _ hx => hx) rfl (fun _ => .inl rfl) h.sound

theorem System.agreeing_preserved (sys : System) :
    sys.exchange.Preserves
      (fun c act => (sys.unpredictable c act && sys.steady c act) = true) (Agreeing sys) where
  start c p h _ hp := by
    cases p with
    | handling call => cases hp
    | receiving j =>
        refine Leads.agreeing h ⟨fun role key => ?_, fun role key => ?_, ?_, ?_, ?_⟩ h.between
          (forall_start h.exchanging trivial) rfl (fun _ => .inl rfl) h.sound
        · simp [waiting, Request.carries]
        · simp [places, waiting, Request.carries]
        · rintro _ _ _ ⟨q, hq, hc⟩
          exact ⟨q, List.mem_append_left _ hq, hc⟩
        · rintro ⟨q, hq, hc⟩
          rcases List.mem_append.mp hq with hq | hq
          · exact ⟨q, hq, hc⟩
          · obtain rfl := List.mem_singleton.mp hq
            cases hc
        · rintro user key (⟨q, hq, hh⟩ | hh)
          · rcases List.mem_append.mp hq with hq | hq
            · exact .inl ⟨q, hq, hh⟩
            · obtain rfl := List.mem_singleton.mp hq
              cases hh
          · exact .inr hh
  turn c i p s' p' h hg hi hs := by
    obtain ⟨-, hsteady⟩ := Bool.and_eq_true_iff.mp hg
    cases p with
    | receiving j =>
        simp only [exchange, step] at hs
        cases hj : c.store.inbox[j]? with
        | none => simp [hj] at hs
        | some x =>
            obtain ⟨role, key⟩ := x
            simp only [hj] at hs
            obtain ⟨rfl, rfl⟩ := Prod.mk.inj (Option.some.inj hs)
            exact Leads.agreeing h (sys.receive_leads hi hj) h.between
              (forall_turn h.exchanging (sys.receive_exchanging role key)) rfl
              (fun _ => .inl rfl) h.sound
    | handling call =>
        obtain ⟨⟨t, q⟩, hstep, heq⟩ := Option.map_eq_some_iff.mp hs
        obtain ⟨rfl, rfl⟩ := Prod.mk.inj heq
        obtain ⟨todo, next⟩ := call
        cases todo with
        | cons cmd todo =>
            have hp : CallExchanging ⟨cmd :: todo, next⟩ :=
              h.exchanging _ (List.mem_of_getElem? hi)
            obtain ⟨rfl, rfl⟩ := Prod.mk.inj (Option.some.inj hstep)
            have htame := tame_of_exchanges (hp.commands cmd (List.mem_cons_self ..))
              sys.parties.initiator sys.parties.responder
            exact Leads.agreeing h (command_leads hp hi) (h.between.exec htame)
              (forall_turn h.exchanging hp.tail) rfl (fun _ => .inl rfl) h.sound
        | nil =>
            cases next with
            | none => cases hstep
            | some handler =>
                obtain ⟨rfl, rfl⟩ := Prod.mk.inj (Option.some.inj hstep)
                exact sys.read_agreeing h hi hsteady
  env c m e' h hg hs := by
    refine sys.move_agreeing h (fun key hkey => ?_) hs
    simp only [unpredictable, steady, hkey, Option.all_some, Option.isNone_some, Bool.false_or,
      Bool.and_eq_true, Bool.not_eq_true', List.contains_eq_mem, decide_eq_false_iff_not] at hg
    exact hg

/-- An exchange that has not begun: no keys in the session, nothing on its way. -/
def beginning (s : Store) : Conf Exchange Request := ⟨⟨s, [], fun _ => {}, []⟩, []⟩

/-- Keys are numbers written out; secrets are products. -/
def sampleCrypto : Crypto where
  computeSharedSecret x y :=
    let value (s : String) := s.toList.foldl (fun n ch => n + ch.toNat) 0
    [UInt8.ofNat (value x * value y)]
  computeSharedSecret_comm x y := by simp only [Nat.mul_comm]
  deriveAESKey bytes := String.ofList (bytes.map fun b => Char.ofNat b.toNat)
  exportKey s := s.toList.map fun ch => UInt8.ofNat ch.toNat
  sha256 bytes := bytes

def sampleParties : Parties where
  initiator := "ann"
  responder := "bob"
  initiator_text := by decide +kernel
  responder_text := by decide +kernel
  distinct := by decide

def sampleSystem : System := ⟨sampleConfig, sampleCrypto, sampleParties, fun _ => true⟩

/-- An accepted session, before the key exchange. -/
def acceptedStore : Store :=
  ⟨0, some { sampleSession with status := some .handshake }, [], false⟩

theorem acceptedStore_between : acceptedStore.Between "ann" "bob" := ⟨_, rfl, rfl, rfl⟩

/-- Both sides publish a key, and the second request relays both. -/
def firstExchange : List (Action Request Move) :=
  List.flatten
    [[.env (.startHandshake .initiator true false "11"),
        .env (.startHandshake .responder true false "22"), .start (.receiving 0)],
      List.replicate 6 (.turn 0), [.start (.receiving 0)], List.replicate 12 (.turn 1)]

/-- `ann` retries with a new key before the peer's key arrives. `bob` ignores the
notification, since he is still waiting himself. -/
def retryDuringRelay : List (Action Request Move) :=
  List.flatten
    [firstExchange,
      [.env (.startHandshake .initiator true true "33"), .env (.deliver 0), .start (.receiving 0)],
      List.replicate 7 (.turn 2), [.env (.deliver 1), .env (.deliver 0)]]

/-- After the exchange `ann` reloads the page and starts again; `bob` is notified
and takes part. -/
def exchangeAgain : List (Action Request Move) :=
  List.flatten
    [firstExchange,
      [.env (.deliver 0), .env (.deliver 0), .env (.reload .initiator),
        .env (.startHandshake .initiator true false "33"), .start (.receiving 0)],
      List.replicate 7 (.turn 2),
      [.env (.deliver 0), .env (.refreshKeys .responder true "44"), .start (.receiving 0)],
      List.replicate 13 (.turn 3), [.env (.deliver 0), .env (.deliver 0)]]

end Handshake

end BurnedChats
