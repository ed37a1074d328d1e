import BurnedChats.Backend.Sessions

/-!
# A burned session and late writes

A burn ends with the deletion of `session:{id}`. Handlers that read the session
before that still issue what they have decided on, and `HSET` and `save` create
the hash anew: with one field and no time to live, or as a whole.

Nothing else can bring a burned session back: a request that reads the key
after the deletion finds no session and writes nothing. So the burn is final
exactly where no request has a write of the session left when the key is
deleted (`burned_is_final`).
-/

namespace BurnedChats

open Interleave

namespace Sessions

/-- The request has already decided on a command that would create the hash. -/
def Call.pendingWrite (p : Call) : Bool := p.todo.any Command.creates

/-- A burn deletes the key only when no request has a write of it left. -/
def settledBurn (c : Conf Store Call) : Action Call Move → Bool
  | .turn i =>
      match c.pool[i]? with
      | some ⟨.delete true :: _, _⟩ => c.pool.all fun p => !p.pendingWrite
      | _ => true
  | _ => true

/-- After a burn there is no hash, and nobody is about to write one. -/
def Final (c : Conf Store Call) : Prop :=
  c.store.burned = true →
    c.store.hash = none ∧ ∀ p ∈ c.pool, p.pendingWrite = false

theorem Config.final_preserved (cfg : Config) :
    cfg.server.Preserves (fun c a => settledBurn c a = true) Final where
  start c p h _ hp hb := by
    obtain ⟨hnone, hidle⟩ := h hb
    refine ⟨hnone, forall_start hidle ?_⟩
    simp only [server, Bool.and_eq_true, List.isEmpty_iff] at hp
    simp [Call.pendingWrite, hp.1]
  turn c i p s' p' h hg hi hs hb := by
    obtain ⟨todo, next⟩ := p
    cases todo with
    | cons command todo =>
        obtain ⟨rfl, rfl⟩ := Prod.mk.inj (Option.some.inj hs)
        dsimp only at hb
        rw [Store.exec_burned, Bool.or_eq_true] at hb
        -- before this command either the burn is over, or this command is the deletion
        rcases hb with hb | hb
        · obtain ⟨hnone, hidle⟩ := h hb
          have hp := hidle _ (List.mem_of_getElem? hi)
          simp only [Call.pendingWrite, List.any_cons, Bool.or_eq_false_iff] at hp
          exact ⟨Store.exec_hash_none hnone hp.1, forall_turn hidle hp.2⟩
        · cases command with
          | delete burn =>
              dsimp only at hb
              subst hb
              have hidle : ∀ q ∈ c.pool, q.pendingWrite = false := by
                simp only [settledBurn, hi, List.all_eq_true, Bool.not_eq_true'] at hg
                exact hg
              have hp := hidle _ (List.mem_of_getElem? hi)
              simp only [Call.pendingWrite, List.any_cons, Bool.or_eq_false_iff] at hp
              exact ⟨rfl, forall_turn hidle hp.2⟩
          | save | setStatus | setLastActivity | setPublicKey | setHandshakeCompleted
          | setVerified | setMessageTtl | clearPublicKeys | expire | send | elsewhere => cases hb
    | nil =>
        cases next with
        | none => cases hs
        | some handler =>
            obtain ⟨rfl, rfl⟩ := Prod.mk.inj (Option.some.inj hs)
            obtain ⟨hnone, hidle⟩ := h hb
            have hread : cfg.findById c.store = none := by simp [findById, hnone]
            refine ⟨hnone, forall_turn hidle ?_⟩
            simp only [Call.pendingWrite, hread]
            exact cfg.found_none c.store.now handler
  env c e s' h _ hs hb := by
    cases e with
    | tick ms =>
        obtain rfl := Option.some.inj hs
        exact h hb
    | lapse =>
        obtain rfl := Option.some.inj hs
        exact ⟨rfl, (h hb).2⟩

/-- Burned is final in every run in which no write of the session is left when a
burn deletes the key. -/
theorem burned_is_final (cfg : Config) (s : Store) (hs : s.burned = false)
    (c : Conf Store Call) (hrun : cfg.server.Run (fun c a => settledBurn c a = true) ⟨s, []⟩ c)
    (hburned : c.store.burned = true) : c.store.hash = none ∧ cfg.findById c.store = none := by
  have hstart : Final ⟨s, []⟩ := fun hb => by
    dsimp only at hb
    rw [hs] at hb
    cases hb
  obtain ⟨hnone, -⟩ := hrun.invariant cfg.final_preserved hstart hburned
  exact ⟨hnone, by simp [Config.findById, hnone]⟩

/-! ### A message sent into a burned session -/

/-- `bob`'s message reads the session; `ann` burns it; `bob`'s `save` puts it back. -/
def lateSave : List (Action Call Move) :=
  List.flatten
    [[.start (.arriving (.sendMessage "bob" none)), .start (.arriving (.burn "ann")), .turn 0],
      List.replicate 6 (.turn 1), [.turn 0, .turn 0]]

theorem burned_comes_back : ¬ ∀ (cfg : Config) (s : Store) (c : Conf Store Call),
    s.burned = false → cfg.server.Reach ⟨s, []⟩ c → c.store.burned = true →
      c.store.hash = none ∧ cfg.findById c.store = none := by
  intro h
  have hrun : (sampleConfig.server.exec ⟨sampleStore, []⟩ lateSave).map
      (fun c => (c.store.burned, c.store.hash.isSome)) = some (true, true) := by decide +kernel
  obtain ⟨c, hc, heq⟩ := Option.map_eq_some_iff.mp hrun
  obtain ⟨hb, hsome⟩ := Prod.mk.inj heq
  obtain ⟨hnone, -⟩ := h sampleConfig sampleStore c rfl (Server.reach_of_exec hc) hb
  rw [hnone] at hsome
  cases hsome

/-- The message is stored before the burn reads; one that comes later finds nothing. -/
def settledRun : List (Action Call Move) :=
  List.flatten
    [[.start (.arriving (.sendMessage "bob" none))], List.replicate 6 (.turn 0),
      [.start (.arriving (.burn "ann"))], List.replicate 6 (.turn 1),
      [.start (.arriving (.confirm "bob")), .turn 2, .turn 2]]

theorem burned_is_final_settled :
    ∃ c, sampleConfig.server.execWhile settledBurn ⟨sampleStore, []⟩ settledRun = some c
      ∧ c.store.burned = true ∧ c.store.hash = none ∧ sampleConfig.findById c.store = none := by
  have hrun : (sampleConfig.server.execWhile settledBurn ⟨sampleStore, []⟩ settledRun).map
      (fun c => c.store.burned) = some true := by decide +kernel
  obtain ⟨c, hc, hb⟩ := Option.map_eq_some_iff.mp hrun
  refine ⟨c, hc, hb, ?_⟩
  exact burned_is_final sampleConfig sampleStore rfl c
    (Server.run_of_execWhile (fun _ _ h => h) hc) hb

end Sessions

end BurnedChats
