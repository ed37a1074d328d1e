import BurnedChats.Backend.WalletProof
import BurnedChats.Lib.Keyspace
import BurnedChats.Lib.Program

/-!
# Files and their index

An uploaded file is a blob in the storage, its metadata under `file_meta:{id}`,
and an element of the set `file_context:{id}` of its session or room, by which a
burn finds it. `FileMetadataRepository.save` gives metadata and set the same time
to live, so the set lives as long as the file that was saved last; how long that
is depends on settings of the room that change between two uploads.

Requests run one after the other. In between time passes, rooms change, and
blobs may go. `burn_finds_files` says when a burn finds every live file: no
upload expires before a file that its context already has.
-/

namespace BurnedChats

namespace Files

/-! ## The store -/

inductive ContextType where
  | session | room
deriving DecidableEq

/-- The hash under `file_meta:{id}`. -/
structure FileMetadata where
  uploaderInternalId : Option String
  uploaderTgId : Option String
  contextType : ContextType
  contextId : String
  size : Nat
  createdAt : Nat

/-- What the files depend on in the hash of a room. -/
structure Room where
  messageTtl : Int

/-- `metas` are the keys `file_meta:{id}`, `contexts` the sets
`file_context:{id}`; times are in milliseconds. -/
structure Store where
  now : Nat
  metas : Keyspace String FileMetadata
  contexts : Keyspace String (List String)
  rooms : Keyspace String Room
  blobs : String → Option (List UInt8)

namespace Store

def empty : Store := ⟨0, .empty, .empty, .empty, fun _ => none⟩

/-- `FileMetadataRepository.findById`. -/
def findById (s : Store) (fileId : String) : Option FileMetadata := s.metas.get? s.now fileId

def findFileIdsByContextId (s : Store) (contextId : String) : List String :=
  (s.contexts.get? s.now contextId).getD []

/-- `RoomRepository.getRemainingTtl`: zero for a key without a time to live, and
for a missing key. -/
def getRemainingTtl (s : Store) (roomId : String) : Nat :=
  match s.rooms.find? s.now roomId with
  | some ⟨_, some deadline⟩ => deadline - s.now
  | _ => 0

end Store

inductive Command where
  | saveBlob (fileId : String) (data : List UInt8)
  | deleteBlob (fileId : String)
  | putAll (fileId : String) (metadata : FileMetadata)
  | expireMeta (fileId : String) (ttl : Nat)
  | deleteMeta (fileId : String)
  | add (contextId fileId : String)
  | expireContext (contextId : String) (ttl : Nat)
  | remove (contextId fileId : String)
  | deleteContext (contextId : String)

/-- `HSET`: a field that is not written stays. -/
def FileMetadata.onto (metadata : FileMetadata) (old : Option FileMetadata) : FileMetadata :=
  { metadata with
    uploaderInternalId := metadata.uploaderInternalId <|> old.bind (·.uploaderInternalId)
    uploaderTgId := metadata.uploaderTgId <|> old.bind (·.uploaderTgId) }

/-- `SREM`: a set without elements is no key. -/
def remove (contexts : Keyspace String (List String)) (now : Nat) (contextId fileId : String) :
    Keyspace String (List String) :=
  match contexts.find? now contextId with
  | none => contexts
  | some e =>
      let rest := e.value.filter (· ≠ fileId)
      if rest.isEmpty then contexts.del contextId
      else contexts.put contextId { e with value := rest }

def Store.exec (c : Command) (s : Store) : Store :=
  match c with
  | .saveBlob fileId data => { s with blobs := Function.update s.blobs fileId (some data) }
  | .deleteBlob fileId => { s with blobs := Function.update s.blobs fileId none }
  | .putAll fileId metadata => { s with metas := s.metas.alter s.now fileId metadata.onto }
  | .expireMeta fileId ttl => { s with metas := s.metas.expire s.now ttl fileId }
  | .deleteMeta fileId => { s with metas := s.metas.del fileId }
  | .add contextId fileId =>
      { s with contexts := s.contexts.alter s.now contextId fun l => (l.getD []).insert fileId }
  | .expireContext contextId ttl => { s with contexts := s.contexts.expire s.now ttl contextId }
  | .remove contextId fileId =>
      { s with contexts := Files.remove s.contexts s.now contextId fileId }
  | .deleteContext contextId => { s with contexts := s.contexts.del contextId }

abbrev Prog := Program Store Command

open Program

/-! ## Times to live -/

def hours (n : Nat) : Nat := n * 60 * 60 * 1000

def minutes (n : Nat) : Nat := n * 60 * 1000

/-- `app.files`; a time to live that ends at once is not configured. -/
structure FileStorageProperties where
  metadataTtl : Nat
  positive : 0 < metadataTtl

/-- `FileStorageProperties.resolveMetadataTtl`; a negative duration is zero here. -/
def resolveMetadataTtl (defaultTtl : Option Nat) (messageTtlSeconds : Option Int)
    (roomHashRemaining : Option Nat) : Nat :=
  let ttl := (defaultTtl.filter (0 < ·)).getD (hours 24)
  let ttl :=
    match messageTtlSeconds with
    | some seconds =>
        if seconds > 0 then
          let messageTtl := seconds.toNat * 1000
          if messageTtl > ttl then messageTtl else ttl
        else ttl
    | none => ttl
  let ttl :=
    match roomHashRemaining with
    | some remaining => if 0 < remaining ∧ remaining < ttl then remaining else ttl
    | none => ttl
  if ttl = 0 then minutes 1 else ttl

variable (properties : FileStorageProperties)

/-- `FileMetadataRepository.resolveTtl`. -/
def resolveTtl (metadata : FileMetadata) (s : Store) : Nat :=
  let fallback := properties.metadataTtl
  if metadata.contextType ≠ .room ∨ isBlank metadata.contextId then fallback
  else
    match s.rooms.get? s.now metadata.contextId with
    | none => fallback
    | some room =>
        let remaining := s.getRemainingTtl metadata.contextId
        resolveMetadataTtl (some fallback)
          (if room.messageTtl > 0 then some room.messageTtl else none)
          (if remaining = 0 then none else some remaining)

/-! ## The requests -/

namespace FileMetadataRepository

def save (fileId : String) (metadata : FileMetadata) : Prog Unit := do
  let ttl ← ask (resolveTtl properties metadata)
  write (.putAll fileId metadata)
  write (.expireMeta fileId ttl)
  write (.add metadata.contextId fileId)
  write (.expireContext metadata.contextId ttl)

def delete (fileId : String) : Prog Bool := do
  match ← ask (·.findById fileId) with
  | none => return false
  | some metadata =>
      write (.remove metadata.contextId fileId)
      call (.deleteMeta fileId) fun s => s.metas.has s.now fileId

end FileMetadataRepository

namespace FileBurnService

def deleteSingleFile (fileId : String) : Prog Unit := do
  write (.deleteBlob fileId)
  let _ ← FileMetadataRepository.delete fileId

def deleteFilesForContext (contextId : String) : Prog Unit := do
  let fileIds ← ask (·.findFileIdsByContextId contextId)
  forEach fileIds fun fileId => (deleteSingleFile fileId).attempt
  write (.deleteContext contextId)

/-- The files of a message that has been read. -/
def burnFiles (fileId thumbnailFileId : Option String) : Prog Unit := do
  forEach ((fileId.filter (!isBlank ·)).toList) fun fileId => (deleteSingleFile fileId).attempt
  forEach ((thumbnailFileId.filter fun t => !isBlank t && some t ≠ fileId).toList) fun fileId =>
    (deleteSingleFile fileId).attempt

end FileBurnService

namespace FileService

/-- An upload that was let through; its content may be shorter than announced. -/
def upload (fileId : String) (metadata : FileMetadata) (data : List UInt8) : Prog Unit := do
  write (.saveBlob fileId data)
  if data.length ≠ metadata.size then
    write (.deleteBlob fileId)
    .fail "FILE_SIZE_INVALID"
  else
    FileMetadataRepository.save properties fileId metadata

/-- A download by one who is let in to the context. -/
def download (fileId : String) : Prog Nat := do
  let metadata ← found (← ask (·.findById fileId)) "FILE_NOT_FOUND"
  if ← ask fun s => (s.blobs fileId).isNone then
    let _ ← FileMetadataRepository.delete fileId
    .fail "FILE_NOT_FOUND"
  else
    return metadata.size

end FileService

inductive Op where
  | upload (fileId : String) (metadata : FileMetadata) (data : List UInt8)
  | download (fileId : String)
  | burnFiles (fileId thumbnailFileId : Option String)
  | deleteFilesForContext (contextId : String)

def Op.program : Op → Prog Unit
  | .upload fileId metadata data => FileService.upload properties fileId metadata data
  | .download fileId => FileService.download fileId >>= fun _ => .done ()
  | .burnFiles fileId thumbnailFileId => FileBurnService.burnFiles fileId thumbnailFileId
  | .deleteFilesForContext contextId => FileBurnService.deleteFilesForContext contextId

/-- Between requests time passes, rooms change, and blobs may go. -/
inductive Moves (s : Store) : Store → Prop where
  | time {t : Nat} : s.now ≤ t → Moves s { s with now := t }
  | rooms (rooms : Keyspace String Room) : Moves s { s with rooms := rooms }
  | blobs {blobs : String → Option (List UInt8)} :
      (∀ f b, blobs f = some b → s.blobs f = some b) → Moves s { s with blobs := blobs }

/-! ## What the commands do -/

theorem mem_remove {contexts : Keyspace String (List String)} {now : Nat} {c c' f f' : String}
    {i : Entry (List String)} (hi : contexts.find? now c' = some i) (hmem : f' ∈ i.value)
    (hne : f' ≠ f) : ∃ i', (remove contexts now c f).find? now c' = some i' ∧ f' ∈ i'.value
      ∧ i'.deadline = i.deadline := by
  unfold remove
  by_cases hc : c' = c
  · subst hc
    have hrest : f' ∈ i.value.filter (· ≠ f) := by simpa using ⟨hmem, hne⟩
    have hsome : (i.value.filter (· ≠ f)).isEmpty = false := by
      simpa using List.ne_nil_of_mem hrest
    refine ⟨{ i with value := i.value.filter (· ≠ f) }, ?_, hrest, rfl⟩
    simp only [hi, hsome, Bool.false_eq_true, if_false]
    exact Keyspace.find?_put (Keyspace.find?_eq_some.mp hi).2
  · refine ⟨i, ?_, hmem, rfl⟩
    cases contexts.find? now c with
    | none => exact hi
    | some e =>
        simp only
        split
        · rwa [Keyspace.find?_del_other hc]
        · rwa [Keyspace.find?_put_other hc]

theorem find?_of_findById {s : Store} {f : String} {m : FileMetadata}
    (h : s.findById f = some m) : ∃ e, s.metas.find? s.now f = some e ∧ e.value = m := by
  obtain ⟨e, he, rfl⟩ := Option.map_eq_some_iff.mp h
  exact ⟨e, he, rfl⟩

theorem find?_of_findById_none {s : Store} {f : String} (h : s.findById f = none) :
    s.metas.find? s.now f = none :=
  Option.map_eq_none_iff.mp h

/-- The store after an upload. -/
def Store.saved (s : Store) (fileId : String) (metadata : FileMetadata) : Store :=
  let deadline := some (s.now + resolveTtl properties metadata s)
  { s with
    metas := s.metas.put fileId ⟨metadata.onto (s.findById fileId), deadline⟩
    contexts := s.contexts.put metadata.contextId
      ⟨(s.findFileIdsByContextId metadata.contextId).insert fileId, deadline⟩ }

theorem save_wp {Q : Unit → Store → Prop} {E : Store → Prop} {s : Store} {fileId : String}
    {metadata : FileMetadata} :
    (FileMetadataRepository.save properties fileId metadata).wp Store.exec Q E s
      ↔ Q () (s.saved properties fileId metadata) := by
  simp only [FileMetadataRepository.save, wp_bind, wp_ask, wp_write, Store.exec,
    Keyspace.expire_alter]
  rfl

/-- What a deletion leaves was there before. -/
structure Shrinks (s s' : Store) : Prop where
  now : s'.now = s.now
  metas : ∀ f e, s'.metas.find? s'.now f = some e → s.metas.find? s.now f = some e
  blobs : ∀ f b, s'.blobs f = some b → s.blobs f = some b

theorem Shrinks.refl (s : Store) : Shrinks s s := ⟨rfl, fun _ _ h => h, fun _ _ h => h⟩

theorem Shrinks.trans {s s' s'' : Store} (h : Shrinks s s') (h' : Shrinks s' s'') :
    Shrinks s s'' :=
  ⟨h'.now.trans h.now, fun f e he => h.metas f e (h'.metas f e he),
    fun f b hb => h.blobs f b (h'.blobs f b hb)⟩

/-- Neither metadata nor a blob. -/
def Gone (f : String) (s : Store) : Prop :=
  s.metas.find? s.now f = none ∧ s.blobs f = none

theorem Gone.shrinks {f : String} {s s' : Store} (h : Gone f s) (hs : Shrinks s s') :
    Gone f s' := by
  refine ⟨?_, ?_⟩
  · refine Option.eq_none_iff_forall_ne_some.mpr fun e he => ?_
    simpa [h.1] using hs.metas f e he
  · refine Option.eq_none_iff_forall_ne_some.mpr fun b hb => ?_
    simpa [h.2] using hs.blobs f b hb

/-! ## The index outlives its files -/

/-- Every live file is in the live set of its context, which does not end before it. -/
def Covered (s : Store) : Prop :=
  ∀ f e, s.metas.find? s.now f = some e →
    ∃ i d d', s.contexts.find? s.now e.value.contextId = some i ∧ f ∈ i.value
      ∧ e.deadline = some d ∧ i.deadline = some d' ∧ d ≤ d'

/-- The upload does not end before another file that its context has. -/
def Outlasts (s : Store) : Op → Prop
  | .upload fileId metadata _ =>
      ∀ f e d, f ≠ fileId → s.metas.find? s.now f = some e →
        e.value.contextId = metadata.contextId → e.deadline = some d →
        d ≤ s.now + resolveTtl properties metadata s
  | _ => True

theorem Covered.mem {s : Store} (h : Covered s) {f : String} {m : FileMetadata}
    (hf : s.findById f = some m) : f ∈ s.findFileIdsByContextId m.contextId := by
  obtain ⟨e, he, rfl⟩ := find?_of_findById hf
  obtain ⟨i, d, d', hi, hmem, -⟩ := h f e he
  simpa [Store.findFileIdsByContextId, Keyspace.get?, hi] using hmem

theorem Covered.blobs {s : Store} (h : Covered s) (blobs : String → Option (List UInt8)) :
    Covered { s with blobs := blobs } := h

theorem saved_covered {s : Store} {fileId : String} {metadata : FileMetadata} (h : Covered s)
    (hlasts : ∀ data, Outlasts properties s (.upload fileId metadata data)) :
    Covered (s.saved properties fileId metadata) := by
  intro f e he
  have hlive : ∀ ids : List String, (⟨ids, some (s.now + resolveTtl properties metadata s)⟩
      : Entry (List String)).live s.now = true := by
    intro ids
    simp [Entry.live]
  by_cases hf : f = fileId
  · subst hf
    have hput : s.metas.put f ⟨metadata.onto (s.findById f),
        some (s.now + resolveTtl properties metadata s)⟩ f = some e :=
      (Keyspace.find?_eq_some.mp he).1
    rw [Keyspace.put_same] at hput
    obtain rfl := Option.some.inj hput
    exact ⟨_, _, _, Keyspace.find?_put (hlive _), List.mem_insert_self, rfl, rfl, Nat.le_refl _⟩
  · have he' : s.metas.find? s.now f = some e :=
      (Keyspace.find?_put_other hf).symm.trans he
    obtain ⟨i, d, d', hi, hmem, hd, hd', hle⟩ := h f e he'
    by_cases hc : e.value.contextId = metadata.contextId
    · rw [hc] at hi ⊢
      refine ⟨_, d, _, Keyspace.find?_put (hlive _), ?_, hd, rfl, hlasts [] f e d hf he' hc hd⟩
      simpa [Store.findFileIdsByContextId, Keyspace.get?, hi] using .inr hmem
    · exact ⟨i, d, d', (Keyspace.find?_put_other hc).trans hi, hmem, hd, hd', hle⟩

/-! ## Deletions -/

theorem delete_wp {s : Store} (h : Covered s) (fileId : String) :
    (FileMetadataRepository.delete fileId).wp Store.exec
      (fun _ s' => Covered s' ∧ Shrinks s s' ∧ s'.metas.find? s'.now fileId = none
        ∧ s'.blobs = s.blobs) (fun _ => False) s := by
  simp only [FileMetadataRepository.delete, wp_bind, wp_ask]
  cases hm : s.findById fileId with
  | none => exact ⟨h, .refl s, find?_of_findById_none hm, rfl⟩
  | some m =>
      simp only [wp_bind, wp_write, wp_call, Store.exec]
      refine ⟨fun f e he => ?_, ⟨rfl, fun f e he => ?_, fun _ _ h => h⟩,
        Keyspace.find?_del_same .., trivial⟩
      all_goals
        have hne : f ≠ fileId := by
          rintro rfl
          simp at he
        have he' : s.metas.find? s.now f = some e :=
          (Keyspace.find?_del_other hne).symm.trans he
      · obtain ⟨i, d, d', hi, hmem, hd, hd', hle⟩ := h f e he'
        obtain ⟨i', hi', hmem', hdead⟩ := mem_remove (c := m.contextId) hi hmem hne
        exact ⟨i', d, d', hi', hmem', hd, hdead.trans hd', hle⟩
      · exact he'

theorem deleteSingleFile_wp {s : Store} (h : Covered s) (fileId : String) :
    (FileBurnService.deleteSingleFile fileId).wp Store.exec
      (fun _ s' => Covered s' ∧ Shrinks s s' ∧ Gone fileId s') (fun _ => False) s := by
  simp only [FileBurnService.deleteSingleFile, wp_bind, wp_write, Store.exec]
  refine wp_mono (delete_wp (h.blobs _) fileId) ?_ fun _ h => h
  rintro _ s' ⟨hc, hs, hmeta, hblobs⟩
  have hless : Shrinks s { s with blobs := Function.update s.blobs fileId none } := by
    refine ⟨rfl, fun _ _ h => h, fun f b hb => ?_⟩
    by_cases hf : f = fileId
    · simp [hf] at hb
    · simpa [hf] using hb
  exact ⟨hc, hless.trans hs, hmeta, by simp [hblobs]⟩

theorem attempt_deleteSingleFile_wp {s : Store} (h : Covered s) (fileId : String) :
    (FileBurnService.deleteSingleFile fileId).attempt.wp Store.exec
      (fun _ s' => Covered s' ∧ Shrinks s s' ∧ Gone fileId s') (fun _ => False) s :=
  wp_attempt (wp_mono (deleteSingleFile_wp h fileId) (fun _ _ h => h) fun _ h => h.elim)

theorem forEach_deleteSingleFile_wp {s : Store} (h : Covered s) (fileIds : List String) :
    (forEach fileIds fun fileId => (FileBurnService.deleteSingleFile fileId).attempt).wp
      Store.exec (fun _ s' => Covered s' ∧ Shrinks s s' ∧ ∀ f ∈ fileIds, Gone f s')
      (fun _ => False) s := by
  refine wp_forEach_each (P := Gone) (I := fun s' => Covered s' ∧ Shrinks s s')
    (fun f _ s' hs' => ?_) ⟨h, .refl s⟩ fun s' hs' hall => ⟨hs'.1, hs'.2, hall⟩
  refine wp_mono (attempt_deleteSingleFile_wp hs'.1 f) ?_ fun _ h => h
  rintro _ t ⟨hc, hs, hgone⟩
  exact ⟨⟨hc, hs'.2.trans hs⟩, hgone, fun f' hf' => hf'.shrinks hs⟩

/-- What a burn of the context in `s` leaves. -/
def Burned (s : Store) (contextId : String) (s' : Store) : Prop :=
  Shrinks s s' ∧ ∀ f m, s.findById f = some m → m.contextId = contextId → Gone f s'

/-- A burn removes every file of a covered context. -/
theorem deleteFilesForContext_wp {s : Store} (h : Covered s) (contextId : String) :
    (FileBurnService.deleteFilesForContext contextId).wp Store.exec
      (fun _ s' => Covered s' ∧ Burned s contextId s') (fun _ => False) s := by
  simp only [FileBurnService.deleteFilesForContext, wp_bind, wp_ask]
  refine wp_mono (forEach_deleteSingleFile_wp h _) ?_ fun _ h => h
  rintro _ s' ⟨hc, hs, hgone⟩
  have hfiles : ∀ f m, s.findById f = some m → m.contextId = contextId → Gone f s' := by
    rintro f m hm rfl
    exact hgone f (h.mem hm)
  simp only [wp_write, Store.exec]
  refine ⟨fun f e he => ?_, ⟨hs.now, hs.metas, hs.blobs⟩, hfiles⟩
  -- the set that goes has no live file left
  have hne : e.value.contextId ≠ contextId := by
    intro hctx
    have hold : s.findById f = some e.value := by
      simp [Store.findById, Keyspace.get?, hs.metas f e he]
    have hnone := (hfiles f e.value hold hctx).1
    exact absurd (hnone.symm.trans he) (by simp)
  obtain ⟨i, d, d', hi, hrest⟩ := hc f e he
  exact ⟨i, d, d', (Keyspace.find?_del_other hne).trans hi, hrest⟩

/-! ## Whole runs -/

theorem upload_covered {s : Store} {fileId : String} {metadata : FileMetadata}
    {data : List UInt8} (h : Covered s)
    (hlasts : Outlasts properties s (.upload fileId metadata data)) :
    (FileService.upload properties fileId metadata data).wp Store.exec (fun _ => Covered)
      Covered s := by
  simp only [FileService.upload, wp_bind, wp_write, wp_ite, wp_fail, save_wp]
  exact ⟨fun _ => h, fun _ => saved_covered properties (h.blobs _) fun _ => hlasts⟩

theorem program_covered {s : Store} {op : Op} (h : Covered s) (hlasts : Outlasts properties s op) :
    (op.program properties).wp Store.exec (fun _ => Covered) Covered s := by
  cases op with
  | upload fileId metadata data => exact upload_covered properties h hlasts
  | download fileId =>
      simp only [Op.program, FileService.download, wp_bind, wp_ask, wp_found, wp_ite]
      refine ⟨fun m hm => ⟨fun hblob => ?_, fun _ => h⟩, fun _ => h⟩
      exact wp_mono (delete_wp h fileId) (fun _ _ h => h.1) fun _ h => h.elim
  | burnFiles fileId thumbnailFileId =>
      refine wp_seq (wp_mono (forEach_deleteSingleFile_wp h _) (fun _ _ h => h.1)
        fun _ h => h.elim) fun _ t ht => ?_
      exact wp_mono (forEach_deleteSingleFile_wp ht _) (fun _ _ h => h.1) fun _ h => h.elim
  | deleteFilesForContext contextId =>
      exact wp_mono (deleteFilesForContext_wp h contextId) (fun _ _ h => h.1) fun _ h => h.elim

theorem Covered.moves {s s' : Store} (h : Covered s) (hm : Moves s s') : Covered s' := by
  cases hm with
  | time hle =>
      rename_i t
      intro f e he
      obtain ⟨i, d, d', hi, hmem, hd, hd', hdd⟩ := h f e (Keyspace.find?_earlier hle he)
      refine ⟨i, d, d', Keyspace.find?_eq_some.mpr ⟨(Keyspace.find?_eq_some.mp hi).1, ?_⟩, hmem,
        hd, hd', hdd⟩
      have hlive := (Keyspace.find?_eq_some.mp he).2
      simp only [Entry.live, hd, hd', decide_eq_true_eq] at hlive ⊢
      omega
  | rooms rooms => exact h
  | blobs hless => exact h

theorem covered_empty : Covered .empty := by
  intro f e he
  cases (Keyspace.find?_eq_some.mp he).1

/-- If no upload ends before a file its context already has, every live file is in
the index of its context, and a burn leaves none of them. -/
theorem burn_finds_files {h : List (Record Op Store Unit)} {s : Store}
    (hrun : Serial Store.exec (Op.program properties) (Outlasts properties) Moves .empty h s)
    (contextId : String) :
    (∀ f m, s.findById f = some m → m.contextId = contextId →
      f ∈ s.findFileIdsByContextId contextId)
    ∧ ∀ s', s' = ((FileBurnService.deleteFilesForContext contextId).run Store.exec s).1 →
      (∀ f m, s'.findById f = some m → m.contextId ≠ contextId)
      ∧ ∀ f m, s.findById f = some m → m.contextId = contextId →
        s'.findById f = none ∧ s'.blobs f = none := by
  have hc : Covered s := by
    refine hrun.invariant (I := fun _ s => Covered s) covered_empty (fun _ s op hs hg => ?_)
      fun _ s s' hs hm => hs.moves hm
    exact wp_mono (program_covered properties hs hg) (fun _ _ h => h) fun _ h _ => h
  refine ⟨fun f m hm hctx => hctx ▸ hc.mem hm, ?_⟩
  rintro s' rfl
  obtain ⟨hs, hgone⟩ := run_of_wp (I := Burned s contextId)
    (wp_mono (deleteFilesForContext_wp hc contextId) (fun _ _ h => h.2) fun _ h => h.elim)
  have hnone : ∀ f m, s.findById f = some m → m.contextId = contextId →
      ((FileBurnService.deleteFilesForContext contextId).run Store.exec s).1.findById f = none :=
    fun f m hm hctx => Option.map_eq_none_iff.mpr (hgone f m hm hctx).1
  refine ⟨fun f m hm hctx => ?_, fun f m hm hctx => ⟨hnone f m hm hctx, (hgone f m hm hctx).2⟩⟩
  obtain ⟨e, he, rfl⟩ := find?_of_findById hm
  have hold : s.findById f = some e.value := by
    simp [Store.findById, Keyspace.get?, hs.metas f e he]
  exact absurd (hm.symm.trans (hnone f e.value hold hctx)) (by simp)

/-! ## Two photos -/

def defaults : FileStorageProperties := ⟨hours 24, by decide⟩

def roomWith (messageTtl : Int) : Keyspace String Room :=
  Keyspace.empty.put "r" ⟨⟨messageTtl⟩, some (hours 720)⟩

def photo : FileMetadata := ⟨some "u", none, .room, "r", 1, 0⟩

/-- Messages live for `messageTtl` seconds when the photo is uploaded. -/
def uploadOne (fileId : String) (messageTtl : Int) (s : Store) : Store :=
  ((Op.program defaults (.upload fileId photo [0])).run Store.exec
    { s with rooms := roomWith messageTtl }).1

theorem runs_uploadOne {G : Store → Op → Prop} {h : List (Record Op Store Unit)} {s : Store}
    (hrun : Serial Store.exec (Op.program defaults) G Moves .empty h s) (fileId : String)
    (messageTtl : Int) (hg : G { s with rooms := roomWith messageTtl } (.upload fileId photo [0])) :
    ∃ h', Serial Store.exec (Op.program defaults) G Moves .empty h'
      (uploadOne fileId messageTtl s) :=
  ⟨_, (hrun.move (.rooms _)).run hg⟩

theorem uploadOne_other (fileId : String) (messageTtl : Int) (s : Store) {f : String}
    (hf : f ≠ fileId) : (uploadOne fileId messageTtl s).metas f = s.metas f := by
  refine run_of_wp (I := fun s' : Store => s'.metas f = s.metas f) ?_
  simp only [Op.program, FileService.upload, wp_bind, wp_write, wp_ite, save_wp]
  exact ⟨fun _ => rfl, fun _ => Keyspace.put_other _ hf⟩

/-- The second photo lives for a week, the first for a day. -/
def twoPhotos : Store := uploadOne "b" 604800 (uploadOne "a" 0 .empty)

theorem second_outlasts :
    Outlasts defaults { uploadOne "a" 0 .empty with rooms := roomWith 604800 }
      (.upload "b" photo [0]) := by
  intro f e d _ he _ hd
  by_cases hf : f = "a"
  · subst hf
    have hfirst : (uploadOne "a" 0 .empty).metas "a" = some e := (Keyspace.find?_eq_some.mp he).1
    have hdead : ((uploadOne "a" 0 .empty).metas "a").bind (·.deadline) = some (hours 24) := by
      decide +kernel
    rw [hfirst] at hdead
    obtain rfl : hours 24 = d := Option.some.inj (hdead.symm.trans hd)
    decide +kernel
  · have hnone : (uploadOne "a" 0 .empty).metas f = none := uploadOne_other "a" 0 .empty hf
    exact absurd ((Keyspace.find?_eq_some.mp he).1.symm.trans hnone) (by simp)

theorem burn_finds_photos : ∃ h, Serial Store.exec (Op.program defaults) (Outlasts defaults) Moves
    .empty h twoPhotos
    ∧ (twoPhotos.findById "a").isSome = true ∧ (twoPhotos.findById "b").isSome = true
    ∧ (∀ f m, twoPhotos.findById f = some m → m.contextId = "r" →
      f ∈ twoPhotos.findFileIdsByContextId "r")
    ∧ ∀ s', s' = ((FileBurnService.deleteFilesForContext "r").run Store.exec twoPhotos).1 →
      (∀ f m, s'.findById f = some m → m.contextId ≠ "r")
      ∧ ∀ f m, twoPhotos.findById f = some m → m.contextId = "r" →
        s'.findById f = none ∧ s'.blobs f = none := by
  have hnone : Outlasts defaults { Store.empty with rooms := roomWith 0 }
      (.upload "a" photo [0]) := fun f e d _ he => by cases (Keyspace.find?_eq_some.mp he).1
  obtain ⟨h, hfirst⟩ := runs_uploadOne .nil "a" 0 hnone
  obtain ⟨h', hrun⟩ := runs_uploadOne hfirst "b" 604800 second_outlasts
  exact ⟨h', hrun, by decide +kernel, by decide +kernel, burn_finds_files defaults hrun "r"⟩

/-- The owner switches the week off before the second photo; a day later the set
is gone, and the first photo is not. -/
def dayLater : Store := { uploadOne "b" 0 (uploadOne "a" 604800 .empty) with now := hours 25 }

theorem live_file_missed : ¬ ∀ (h : List (Record Op Store Unit)) (s : Store),
    Serial Store.exec (Op.program defaults) (fun _ _ => True) Moves .empty h s →
    ∀ contextId, (∀ f m, s.findById f = some m → m.contextId = contextId →
      f ∈ s.findFileIdsByContextId contextId)
    ∧ ∀ s', s' = ((FileBurnService.deleteFilesForContext contextId).run Store.exec s).1 →
      (∀ f m, s'.findById f = some m → m.contextId ≠ contextId)
      ∧ ∀ f m, s.findById f = some m → m.contextId = contextId →
        s'.findById f = none ∧ s'.blobs f = none := by
  intro hall
  obtain ⟨h, hfirst⟩ := runs_uploadOne (G := fun _ _ => True) .nil "a" 604800 trivial
  obtain ⟨h', hrun⟩ := runs_uploadOne hfirst "b" 0 trivial
  have hday := hall _ dayLater (hrun.move (.time (by decide +kernel))) "r"
  have hctx : (dayLater.findById "a").map (·.contextId) = some "r" := by decide +kernel
  obtain ⟨m, hm, hr⟩ := Option.map_eq_some_iff.mp hctx
  have hmem := hday.1 "a" m hm hr
  revert hmem
  decide +kernel

end Files

end BurnedChats
