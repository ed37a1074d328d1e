import BurnedChats.Backend.RoomFootprint

/-!
# The owner of a room is a member

`transferOwnership` checks that the new owner is a member and then writes the
owner field; leaving, kicks, bans and the burn of a user check that somebody is
not the owner and then take them out. Between check and write the other may run,
and a room is left to an owner who is no longer in it.

`owner_is_member` says when that cannot happen: the owner field is written while
its new value is a member, nobody is taken out who is the owner by then, and the
member set is deleted only after the room.
-/

namespace BurnedChats

open Interleave

namespace RoomOwner

open Rooms Store Program

/-- The operations on owner and members. -/
def scope : Op → Bool
  | .transferOwnership .. => true
  | .leave .. => true
  | .kick .. => true
  | .ban .. => true
  | .burnAll .. => true
  | _ => false

def owner? (s : Store) (r : String) : Option String := (s.hash r).map (·.ownerInternalId)

/-- The check of the operation still holds when it writes. -/
def checksHold (_ : Op) (command : Command) (s : Store) : Bool :=
  match command with
  | .hset r [.ownerInternalId u] => s.sismember r .members u
  | .srem r .members u => owner? s r ≠ some u
  | .del r keys => !keys.contains (.set .members) || (owner? s r).isNone
  | _ => true

def allowed (c : Conf Store RoomCall) (a : Interleave.Action RoomCall Move) : Bool :=
  Call.within scope a && Call.noMoves a && Call.guarded checksHold c a

/-- The owner of every room is one of its members. -/
def OwnerIn (s : Store) : Prop := ∀ r u, owner? s r = some u → u ∈ s.smembers r .members

/-- The only field that these operations write is the owner's. -/
def Issues : Command → Prop
  | .hset _ fields => ∃ u, fields = [.ownerInternalId u]
  | _ => True

theorem cleanup_issues {r u : String} {c : Command} (h : Cleanup r u c) : Issues c := by
  cases h <;> trivial

theorem cascade_issues {r : String} {part : Part} {c : Command} (h : Cascade r part c) :
    Issues c := by
  cases h <;> trivial

theorem program_issues {op : Op} (h : scope op = true) : op.program.All Issues := by
  cases op with
  | transferOwnership owner r u =>
      exact transferOwnership_all ⟨u, rfl⟩ (fun _ => trivial) (fun _ => trivial) trivial
  | leave caller r => exact leaveRoom_all (fun _ => cleanup_issues) fun _ => trivial
  | kick caller r u => exact kickMember_all (fun _ => cleanup_issues) fun _ => trivial
  | ban owner r u => exact banMember_all (fun _ => cleanup_issues) trivial fun _ => trivial
  | burnAll u wipe =>
      exact burnAllForUser_all (fun _ _ _ => cascade_issues) (fun _ _ _ => trivial)
        (fun _ _ => cleanup_issues) (fun _ _ => trivial) trivial
  | _ => cases h

/-! ## The invariant -/

/-- One command keeps every owner a member. -/
theorem ownerIn_command {s : Store} {op : Op} {c : Command} (hin : OwnerIn s)
    (hissues : Issues c) (hcheck : checksHold op c s = true) : OwnerIn (exec c s) := by
  cases c with
  | hset r fields =>
      obtain ⟨v, rfl⟩ := hissues
      intro r' u hu
      rw [smembers_exec rfl]
      simp only [owner?, hash_hset] at hu
      split at hu
      · rename_i hr
        subst hr
        obtain rfl : v = u := by simpa [Store.hset, RoomHash.set] using hu
        simpa [checksHold, sismember] using hcheck
      · exact hin r' u hu
  | sadd r key x =>
      intro r' u hu
      rw [owner?, hash_exec rfl] at hu
      exact mem_smembers_sadd.mpr (.inl (hin r' u hu))
  | srem r key x =>
      intro r' u hu
      rw [owner?, hash_exec rfl] at hu
      refine mem_smembers_srem.mpr ⟨hin r' u hu, ?_⟩
      rintro ⟨rfl, rfl, rfl⟩
      simp [checksHold, owner?, hu] at hcheck
  | del r keys =>
      intro r' u hu
      rw [owner?, hash_del] at hu
      split at hu
      · cases hu
      · refine mem_smembers_del.mpr ⟨hin r' u hu, ?_⟩
        rintro ⟨rfl, hmem⟩
        simp [checksHold, owner?, hmem] at hcheck
        simp [hcheck] at hu
  | _ =>
      intro r' u hu
      rw [owner?, hash_exec rfl] at hu
      rw [smembers_exec rfl]
      exact hin r' u hu

theorem sampleStore_ownerIn : OwnerIn sampleStore := by
  intro r u hu
  by_cases hr : r = "r"
  · subst hr
    obtain rfl : "o" = u := Option.some.inj hu
    decide
  · simp [owner?, Store.hash, sampleStore_room_of_ne hr, RoomKeys.empty] at hu

def transfer : Interleave.Action RoomCall Move :=
  .start (.arriving (.transferOwnership "o" "r" "u"))

/-- The new owner has been found not to be the owner, and leaves. -/
def leavingOwner : List (Interleave.Action RoomCall Move) :=
  List.flatten [[.start (.arriving (.leave "u" "r"))], List.replicate 3 (.turn 0), [transfer],
    List.replicate 9 (.turn 1), List.replicate 6 (.turn 0)]

/-- The room is handed over, and the former owner leaves. -/
def handOver : List (Interleave.Action RoomCall Move) :=
  List.flatten [[transfer], List.replicate 9 (.turn 0), [.start (.arriving (.leave "o" "r"))],
    List.replicate 9 (.turn 1)]

end RoomOwner

end BurnedChats
