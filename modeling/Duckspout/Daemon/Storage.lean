import Duckspout.Lib.Pieces
import Duckspout.Replication.Boot
import Mathlib.Data.List.Induction

/-! The node-local store: the file store a node runs on (`duckspout-daemon/src/system.rs`) and the in-memory one that the
    protocol tests run on (`duckspout-ctk/src/storage.rs`).

    A disk is a map from locations to contents. Which location a path names is the system's affair; directories stay as
    they are. The in-memory store says of a path that nothing is there, the file store only that the system refused. -/

namespace Duckspout

abbrev Bytes := List UInt8

/-! ### The port -/

inductive StorageOp where
  | put (path : String) (data : Bytes)
  | get (path : String)
  | delete (path : String)
  | fsyncFile (path : String)
  | fsyncDir (dir : String)
  deriving DecidableEq, Repr

/-- What a step answers: a `get` has a content. -/
abbrev StorageAnswer := Except StorageError (Option Bytes)

abbrev Store (S : Type) := StorageOp → S → StorageAnswer × S

/-- The state after a history. -/
def Store.after {S : Type} (store : Store S) (start : S) (history : List StorageOp) : S :=
  history.foldl (fun state op => (store op state).2) start

theorem Store.after_concat {S : Type} (store : Store S) (start : S) (history : List StorageOp) (op : StorageOp) :
    store.after start (history ++ [op]) = (store op (store.after start history)).2 := by
  simp [Store.after]

/-! ### The file system -/

/-- What the system makes of paths. -/
structure Volume (Loc : Type) where
  locate : String → Loc
  isDir : Loc → Bool
  parent : Loc → Loc

abbrev Disk (Loc : Type) := Loc → Option Bytes

namespace Volume

variable {Loc : Type} [DecidableEq Loc] (volume : Volume Loc)

def notFoundText : String := "No such file or directory (os error 2)"

def isDirectoryText : String := "Is a directory (os error 21)"

/-- `std::fs::write`. -/
def write (path : String) (data : Bytes) (disk : Disk Loc) : Except String Unit × Disk Loc :=
  let loc := volume.locate path
  if volume.isDir loc then (.error isDirectoryText, disk)
  else if volume.isDir (volume.parent loc) then (.ok (), Function.update disk loc (some data))
  else (.error notFoundText, disk)

/-- `std::fs::read`. -/
def read (path : String) (disk : Disk Loc) : Except String Bytes :=
  let loc := volume.locate path
  if volume.isDir loc then .error isDirectoryText
  else
    match disk loc with
    | some data => .ok data
    | none => .error notFoundText

/-- `std::fs::remove_file`. -/
def removeFile (path : String) (disk : Disk Loc) : Except String Unit × Disk Loc :=
  let loc := volume.locate path
  if volume.isDir loc then (.error isDirectoryText, disk)
  else
    match disk loc with
    | some _ => (.ok (), Function.update disk loc none)
    | none => (.error notFoundText, disk)

/-- `File::open`, then `sync_all`. -/
def syncAll (path : String) (disk : Disk Loc) : Except String Unit :=
  let loc := volume.locate path
  if volume.isDir loc ∨ (disk loc).isSome then .ok () else .error notFoundText

end Volume

/-! ### The file store -/

namespace FsStorage

variable {Loc : Type} [DecidableEq Loc] (volume : Volume Loc) (root : String)

/-- `Path::join`: an absolute path stands for itself. -/
def join (path : String) : String :=
  if path.toList.head? = some '/' then path
  else if root = "" ∨ root.toList.getLast? = some '/' then root ++ path
  else root ++ "/" ++ path

def resolve (path : String) : String := if path = "" then root else join root path

def step : Store (Disk Loc)
  | .put path data, disk =>
    let written := volume.write (resolve root path) data disk
    ((written.1.mapError .backend).map fun _ => none, written.2)
  | .get path, disk => (((volume.read (resolve root path) disk).mapError .backend).map some, disk)
  | .delete path, disk =>
    let removed := volume.removeFile (resolve root path) disk
    ((removed.1.mapError .backend).map fun _ => none, removed.2)
  | .fsyncFile path, disk =>
    (((volume.syncAll (resolve root path) disk).mapError fun _ => .fsyncFailed path).map fun _ => none, disk)
  | .fsyncDir dir, disk =>
    (((volume.syncAll (resolve root dir) disk).mapError fun _ => .fsyncFailed dir).map fun _ => none, disk)

end FsStorage

/-! ### The in-memory store -/

structure FileState where
  content : Bytes
  contentDurable : Bool
  nameDurable : Bool
  torn : Bool
  deriving DecidableEq, Repr

structure InMemStorage where
  files : String → Option FileState := fun _ => none
  failNextFsync : Bool := false
  tearNextPut : Bool := false
  fired : List String := []

namespace InMemStorage

def fsyncFailFault : String := "storage:fail-next-fsync"

def tornWriteFault : String := "storage:tear-next-put"

def parentDir (path : String) : String :=
  ((Pieces.rsplitOnce '/' path.toList).map fun x => String.ofList x.1).getD ""

def put (store : InMemStorage) (path : String) (data : Bytes) : InMemStorage :=
  let torn := store.tearNextPut
  let stored := if torn then data.take (data.length / 2) else data
  let nameDurable := (store.files path).any (·.nameDurable)
  { store with
    files := Function.update store.files path (some { content := stored, contentDurable := false, nameDurable, torn })
    tearNextPut := false
    fired := if torn then store.fired ++ [tornWriteFault] else store.fired }

def step : Store InMemStorage
  | .put path data, store => (.ok none, store.put path data)
  | .get path, store =>
    match store.files path with
    | some file => (if file.torn then .error (.tornWrite path) else .ok (some file.content), store)
    | none => (.error (.notFound path), store)
  | .delete path, store =>
    match store.files path with
    | some _ => (.ok none, { store with files := Function.update store.files path none })
    | none => (.error (.notFound path), store)
  | .fsyncFile path, store =>
    if store.failNextFsync then
      (.error (.fsyncFailed path), { store with failNextFsync := false, fired := store.fired ++ [fsyncFailFault] })
    else
      match store.files path with
      | some file =>
        (.ok none, { store with files := Function.update store.files path (some { file with contentDurable := true }) })
      | none => (.error (.notFound path), store)
  | .fsyncDir dir, store =>
    (.ok none, { store with
      files := fun path => (store.files path).map fun file =>
        if parentDir path = dir then { file with nameDurable := true } else file })

end InMemStorage

/-! ### What a history has written -/

/-- What a step makes of the content under the paths it touches. -/
def StorageOp.write (touches : String → Bool) (content : Option Bytes) : StorageOp → Option Bytes
  | .put path data => if touches path then some data else content
  | .delete path => if touches path then none else content
  | _ => content

/-- The content a history leaves: that of the last `put`, unless there was a `delete` after it. -/
def written (touches : String → Bool) (history : List StorageOp) : Option Bytes :=
  history.foldl (StorageOp.write touches) none

theorem written_concat (touches : String → Bool) (history : List StorageOp) (op : StorageOp) :
    written touches (history ++ [op]) = op.write touches (written touches history) := by
  simp [written]

/-- The in-memory store after a fault-free history. -/
structure InMemStorage.Holds (store : InMemStorage) (history : List StorageOp) : Prop where
  noFsyncFault : store.failNextFsync = false
  noTornPut : store.tearNextPut = false
  content : ∀ path, (store.files path).map (·.content) = written (· = path) history
  whole : ∀ path file, store.files path = some file → file.torn = false

namespace InMemStorage

variable {store store' : InMemStorage} {history : List StorageOp}

/-- A step that only marks files leaves what they hold. -/
theorem Holds.mark (h : store.Holds history) {op : StorageOp} (hop : ∀ touches content, op.write touches content = content)
    (hfault : store'.failNextFsync = false) (htorn : store'.tearNextPut = false) (mark : String → FileState → FileState)
    (hmark : ∀ path file, (mark path file).content = file.content ∧ (mark path file).torn = file.torn)
    (hfiles : ∀ path, store'.files path = (store.files path).map (mark path)) : store'.Holds (history ++ [op]) := by
  refine ⟨hfault, htorn, fun path => ?_, fun path file hfile => ?_⟩
  · rw [written_concat, hop, ← h.content, hfiles, Option.map_map]
    exact congrArg (Option.map · (store.files path)) (funext fun file => (hmark path file).1)
  · rw [hfiles, Option.map_eq_some_iff] at hfile
    obtain ⟨old, hold, rfl⟩ := hfile
    rw [(hmark path old).2]
    exact h.whole path old hold

/-- A step that replaces what one path holds. -/
theorem Holds.replace (h : store.Holds history) (path : String) (file : Option FileState) {op : StorageOp}
    (hop : ∀ touches content, op.write touches content = if touches path then file.map (·.content) else content)
    (hfault : store'.failNextFsync = false) (htorn : store'.tearNextPut = false)
    (hfile : ∀ new, file = some new → new.torn = false) (hfiles : store'.files = Function.update store.files path file) :
    store'.Holds (history ++ [op]) := by
  refine ⟨hfault, htorn, fun p => ?_, fun p new hnew => ?_⟩
  · rw [written_concat, hop, hfiles]
    by_cases hp : path = p
    · simp [hp]
    · simp [hp, Function.update_of_ne (Ne.symm hp), h.content]
  · rw [hfiles] at hnew
    by_cases hp : p = path
    · rw [hp, Function.update_self] at hnew
      exact hfile new hnew
    · rw [Function.update_of_ne hp] at hnew
      exact h.whole p new hnew

theorem Holds.concat (h : store.Holds history) (op : StorageOp) : (step op store).2.Holds (history ++ [op]) := by
  cases op with
  | put path data =>
    refine h.replace path _ (fun _ _ => ?_) h.noFsyncFault rfl (fun new hnew => ?_) rfl
    · simp [StorageOp.write, h.noTornPut]
    · cases hnew
      exact h.noTornPut
  | get path =>
    refine h.mark (fun _ _ => rfl) ?_ ?_ (fun _ => id) (fun _ _ => ⟨rfl, rfl⟩) fun p => ?_
    · cases hfile : store.files path <;> simp [step, h.noFsyncFault, hfile]
    · cases hfile : store.files path <;> simp [step, h.noTornPut, hfile]
    · cases hfile : store.files path <;> simp [step, hfile]
  | delete path =>
    refine h.replace path none (fun _ _ => rfl) ?_ ?_ (fun _ hnew => by cases hnew) ?_
    · cases hfile : store.files path <;> simp [step, h.noFsyncFault, hfile]
    · cases hfile : store.files path <;> simp [step, h.noTornPut, hfile]
    · cases hfile : store.files path with
      | none =>
        have hsame : Function.update store.files path none = store.files := by rw [← hfile, Function.update_eq_self]
        simp only [step, hfile, hsame]
      | some file => simp only [step, hfile]
  | fsyncFile path =>
    refine h.mark (fun _ _ => rfl) ?_ ?_
      (fun p file => if p = path then { file with contentDurable := true } else file) (fun p file => ?_) fun p => ?_
    · cases hfile : store.files path <;> simp [step, h.noFsyncFault, hfile]
    · cases hfile : store.files path <;> simp [step, h.noFsyncFault, h.noTornPut, hfile]
    · split <;> exact ⟨rfl, rfl⟩
    · cases hfile : store.files path <;> by_cases hp : p = path <;> simp [step, h.noFsyncFault, hfile, hp]
  | fsyncDir dir =>
    refine h.mark (fun _ _ => rfl) h.noFsyncFault h.noTornPut
      (fun p file => if parentDir p = dir then { file with nameDurable := true } else file) (fun p file => ?_) fun _ => rfl
    split <;> exact ⟨rfl, rfl⟩

theorem Holds.start : ({} : InMemStorage).Holds [] := ⟨rfl, rfl, fun _ => rfl, fun _ _ h => by cases h⟩

theorem Holds.after (history : List StorageOp) : (Store.after step {} history).Holds history := by
  induction history using List.reverseRecOn with
  | nil => exact Holds.start
  | append_singleton history op ih =>
    rw [Store.after_concat]
    exact ih.concat op

/-- The answer of a `get`. -/
theorem Holds.get (h : store.Holds history) (path : String) : (step (.get path) store).1 =
    match written (· = path) history with
    | some data => .ok (some data)
    | none => .error (.notFound path) := by
  rw [← h.content path]
  cases hfile : store.files path with
  | none => simp [step, hfile]
  | some file => simp [step, hfile, h.whole path file hfile]

theorem Holds.delete (h : store.Holds history) (path : String) : (step (.delete path) store).1 =
    if (written (· = path) history).isSome then .ok none else .error (.notFound path) := by
  rw [← h.content path]
  cases hfile : store.files path <;> simp [step, hfile]

theorem Holds.fsyncFile (h : store.Holds history) (path : String) : (step (.fsyncFile path) store).1 =
    if (written (· = path) history).isSome then .ok none else .error (.notFound path) := by
  rw [← h.content path]
  cases hfile : store.files path <;> simp [step, hfile, h.noFsyncFault]

end InMemStorage

/-! ### The file store after a history -/

namespace FsStorage

variable {Loc : Type} [DecidableEq Loc] {volume : Volume Loc} {root : String}

/-- The step is on a file in a directory that is there, or on a directory that is. -/
def OnFiles (volume : Volume Loc) (root : String) : StorageOp → Prop
  | .put path _ | .get path | .delete path | .fsyncFile path =>
    volume.isDir (volume.locate (resolve root path)) = false ∧
      volume.isDir (volume.parent (volume.locate (resolve root path))) = true
  | .fsyncDir dir => volume.isDir (volume.locate (resolve root dir)) = true

instance (volume : Volume Loc) (root : String) : DecidablePred (OnFiles volume root)
  | .put _ _ | .get _ | .delete _ | .fsyncFile _ => inferInstanceAs (Decidable (_ ∧ _))
  | .fsyncDir _ => inferInstanceAs (Decidable (_ = _))

/-- The paths that name a location. -/
def naming (volume : Volume Loc) (root : String) (loc : Loc) (path : String) : Bool :=
  volume.locate (resolve root path) = loc

/-- A location holds what the history wrote under the paths that name it. -/
def Holds (volume : Volume Loc) (root : String) (disk : Disk Loc) (history : List StorageOp) : Prop :=
  ∀ loc, disk loc = written (naming volume root loc) history

variable {disk : Disk Loc} {history : List StorageOp} {path : String}

theorem Holds.keep (h : Holds volume root disk history) {op : StorageOp}
    (hop : ∀ touches content, op.write touches content = content) : Holds volume root disk (history ++ [op]) := by
  intro loc
  rw [written_concat, hop, h loc]

/-- A step that replaces what a path names. -/
theorem Holds.update (h : Holds volume root disk history) {op : StorageOp} {data : Option Bytes}
    (hop : ∀ touches content, op.write touches content = if touches path then data else content) :
    Holds volume root (Function.update disk (volume.locate (resolve root path)) data) (history ++ [op]) := by
  intro loc
  rw [written_concat, hop, ← h loc]
  by_cases hloc : loc = volume.locate (resolve root path)
  · simp [naming, hloc]
  · simp [naming, Function.update_of_ne hloc, Ne.symm hloc]

theorem Holds.concat (h : Holds volume root disk history) {op : StorageOp} (hop : OnFiles volume root op) :
    Holds volume root (step volume root op disk).2 (history ++ [op]) := by
  cases op with
  | put path data =>
    obtain ⟨hfile, hdir⟩ := hop
    have hstep : (step volume root (.put path data) disk).2 =
        Function.update disk (volume.locate (resolve root path)) (some data) := by
      simp [step, Volume.write, hfile, hdir]
    rw [hstep]
    exact h.update fun _ _ => rfl
  | delete path =>
    have hstep : (step volume root (.delete path) disk).2 =
        Function.update disk (volume.locate (resolve root path)) none := by
      cases hdata : disk (volume.locate (resolve root path)) with
      | none => simp [step, Volume.removeFile, hop.1, hdata]
      | some data => simp [step, Volume.removeFile, hop.1, hdata]
    rw [hstep]
    exact h.update fun _ _ => rfl
  | get path => exact h.keep fun _ _ => rfl
  | fsyncFile path => exact h.keep fun _ _ => rfl
  | fsyncDir dir => exact h.keep fun _ _ => rfl

theorem Holds.after (hops : ∀ op ∈ history, OnFiles volume root op) :
    Holds volume root (Store.after (step volume root) (fun _ => none) history) history := by
  induction history using List.reverseRecOn with
  | nil => exact fun _ => rfl
  | append_singleton history op ih =>
    rw [Store.after_concat]
    exact (ih fun o ho => hops o (List.mem_append_left _ ho)).concat (hops op (List.mem_append_right _ List.mem_cons_self))

/-- What the history wrote to the file a path names. -/
abbrev writtenTo (volume : Volume Loc) (root path : String) (history : List StorageOp) : Option Bytes :=
  written (naming volume root (volume.locate (resolve root path))) history

theorem Holds.put (data : Bytes) (hop : OnFiles volume root (.put path data)) :
    (step volume root (.put path data) disk).1 = .ok none := by
  simp [step, Volume.write, hop.1, hop.2, Except.mapError, Except.map]

theorem Holds.get (h : Holds volume root disk history) (hop : OnFiles volume root (.get path)) :
    (step volume root (.get path) disk).1 =
      match writtenTo volume root path history with
      | some data => .ok (some data)
      | none => .error (.backend Volume.notFoundText) := by
  rw [writtenTo, ← h]
  cases hdata : disk (volume.locate (resolve root path)) <;>
    simp [step, Volume.read, hop.1, hdata, Except.mapError, Except.map]

theorem Holds.delete (h : Holds volume root disk history) (hop : OnFiles volume root (.delete path)) :
    (step volume root (.delete path) disk).1 =
      if (writtenTo volume root path history).isSome then .ok none else .error (.backend Volume.notFoundText) := by
  rw [writtenTo, ← h]
  cases hdata : disk (volume.locate (resolve root path)) <;>
    simp [step, Volume.removeFile, hop.1, hdata, Except.mapError, Except.map]

theorem Holds.fsyncFile (h : Holds volume root disk history) (hop : OnFiles volume root (.fsyncFile path)) :
    (step volume root (.fsyncFile path) disk).1 =
      if (writtenTo volume root path history).isSome then .ok none else .error (.fsyncFailed path) := by
  rw [writtenTo, ← h]
  cases hdata : disk (volume.locate (resolve root path)) <;>
    simp [step, Volume.syncAll, hop.1, hdata, Except.mapError, Except.map]

theorem Holds.fsyncDir {dir : String} (hop : OnFiles volume root (.fsyncDir dir)) :
    (step volume root (.fsyncDir dir) disk).1 = .ok none := by
  have hdir : volume.isDir (volume.locate (resolve root dir)) = true := hop
  simp [step, Volume.syncAll, hdir, Except.mapError, Except.map]

end FsStorage

/-! ### Step by step -/

inductive StorageErrorKind where
  | notFound
  | fsyncFailed
  | tornWrite
  | backend
  deriving DecidableEq, Repr

def StorageError.kind : StorageError → StorageErrorKind
  | .notFound _ => .notFound
  | .fsyncFailed _ => .fsyncFailed
  | .tornWrite _ => .tornWrite
  | .backend _ => .backend

/-- The same content or the same kind of failure. -/
def SameAnswer (a b : StorageAnswer) : Prop := a.mapError (·.kind) = b.mapError (·.kind)

section Agreement

variable {Loc : Type} [DecidableEq Loc] (volume : Volume Loc) (root : String)

abbrev onDisk (history : List StorageOp) : Disk Loc := Store.after (FsStorage.step volume root) (fun _ => none) history

abbrev inMemory (history : List StorageOp) : InMemStorage := Store.after InMemStorage.step {} history

/-- At every step of the run the two stores answer alike. -/
def StepsAgree (ops : List StorageOp) : Prop :=
  ∀ history op rest, ops = history ++ op :: rest →
    SameAnswer (FsStorage.step volume root op (onDisk volume root history)).1
      (InMemStorage.step op (inMemory history)).1

/-- What the step reads, removes or syncs was written, under the path as it is spelled and under the file it names;
    a `get` finds the same content under both. -/
def Addresses (history : List StorageOp) : StorageOp → Prop
  | .get path => ∃ data, written (· = path) history = some data ∧ FsStorage.writtenTo volume root path history = some data
  | .delete path | .fsyncFile path =>
    (written (· = path) history).isSome ∧ (FsStorage.writtenTo volume root path history).isSome
  | .put _ _ | .fsyncDir _ => True

/-- No step of the run addresses what is absent. -/
def AddressesPresent (ops : List StorageOp) : Prop :=
  ∀ history op rest, ops = history ++ op :: rest → Addresses volume root history op

variable {volume root} {disk : Disk Loc} {store : InMemStorage} {history : List StorageOp}

theorem addressesPresent_nil : AddressesPresent volume root [] := by
  intro history op rest hsplit
  simp at hsplit

theorem addressesPresent_concat {op : StorageOp} : AddressesPresent volume root (history ++ [op]) ↔
    AddressesPresent volume root history ∧ Addresses volume root history op := by
  constructor
  · intro h
    refine ⟨fun before o rest hsplit => h before o (rest ++ [op]) (by simp [hsplit]), h history op [] rfl⟩
  · rintro ⟨hhistory, hop⟩ before o rest hsplit
    rcases List.eq_nil_or_concat rest with rfl | ⟨rest, last, rfl⟩
    · obtain ⟨rfl, hlast⟩ := List.append_inj' hsplit rfl
      cases hlast
      exact hop
    · rw [List.concat_eq_append, ← List.cons_append, ← List.append_assoc] at hsplit
      obtain ⟨rfl, -⟩ := List.append_inj' hsplit rfl
      exact hhistory before o rest rfl

/-- Answers that fail in different ways are the same when neither fails. -/
theorem sameAnswer_ite {p q : Prop} [Decidable p] [Decidable q] {e e' : StorageError} (hkind : e.kind ≠ e'.kind) :
    SameAnswer (if p then .ok none else .error e) (if q then .ok none else .error e') ↔ q ∧ p := by
  by_cases hp : p
  · by_cases hq : q <;> simp [SameAnswer, hp, hq, Except.mapError]
  · by_cases hq : q <;> simp [SameAnswer, hp, hq, Except.mapError, hkind]

theorem sameAnswer_iff (hdisk : FsStorage.Holds volume root disk history) (hstore : store.Holds history) {op : StorageOp}
    (hop : FsStorage.OnFiles volume root op) :
    SameAnswer (FsStorage.step volume root op disk).1 (InMemStorage.step op store).1 ↔ Addresses volume root history op := by
  cases op with
  | put path data => simp [SameAnswer, FsStorage.Holds.put data hop, InMemStorage.step, Addresses]
  | get path =>
    rw [SameAnswer, hdisk.get hop, hstore.get, Addresses]
    rcases written (· = path) history with _ | data <;>
      rcases FsStorage.writtenTo volume root path history with _ | data' <;>
      simp [Except.mapError, StorageError.kind]
  | delete path =>
    rw [hdisk.delete hop, hstore.delete, Addresses]
    exact sameAnswer_ite (by simp [StorageError.kind])
  | fsyncFile path =>
    rw [hdisk.fsyncFile hop, hstore.fsyncFile, Addresses]
    exact sameAnswer_ite (by simp [StorageError.kind])
  | fsyncDir dir => simp [SameAnswer, FsStorage.Holds.fsyncDir hop, InMemStorage.step, Addresses]

theorem stepsAgree_iff {ops : List StorageOp} (hops : ∀ op ∈ ops, FsStorage.OnFiles volume root op) :
    StepsAgree volume root ops ↔ AddressesPresent volume root ops := by
  refine forall₃_congr fun history op rest => forall_congr' fun hsplit => ?_
  have hhistory : ∀ o ∈ history, FsStorage.OnFiles volume root o := fun o ho => hops o (by simp [hsplit, ho])
  exact sameAnswer_iff (.after hhistory) (.after history) (hops op (by simp [hsplit]))

end Agreement

/-! ### The boot on a store -/

section Boot

variable {S : Type} (store : Store S) (decode : Bytes → FileContent)

def perform (op : StorageOp) : Fallible BootError S StorageAnswer :=
  ExceptT.mk fun state => (.ok (store op state).1, (store op state).2)

/-- `read_persisted_incarnation`: only what is not found was never written. -/
def readIncarnationOn (path : String) : Fallible BootError S (Option ℕ) := do
  match ← perform store (.get path) with
  | .ok content => return some (← Fallible.ofExcept (decodeIncarnation (decode (content.getD []))))
  | .error (.notFound _) => return none
  | .error error => throw (.persistedIncarnationUnreadable error)

/-- One step of `persist_incarnation`. -/
def persistStep (op : StorageOp) : Fallible BootError S Unit := do
  match ← perform store op with
  | .ok _ => return ()
  | .error error => throw (.persistFailed error)

def persistIncarnationOn (path dir : String) (incarnation : U64) : Fallible BootError S Unit := do
  persistStep store (.put path ((renderU64 incarnation).map fun c => c.toNat.toUInt8))
  persistStep store (.fsyncFile path)
  persistStep store (.fsyncDir dir)

def fenceBootOn (registry : Except RegistryError U64) (path dir : String) : Fallible BootError S BootOutcome := do
  let persisted ← readIncarnationOn store decode path
  match registry with
  | .ok fresh =>
    if fresh = 0 ∨ persisted.any (fun prior => decide ((fresh : ℕ) ≤ prior)) then
      throw (.registryIncarnationRegressed fresh persisted)
    persistIncarnationOn store path dir fresh
    return .active fresh
  | .error (.unreachable _) =>
    match persisted with
    | some incarnation => return .degraded incarnation
    | none => return .waiting
  | .error error => throw (.registryBackend error)

end Boot

theorem run_perform {S : Type} (store : Store S) (op : StorageOp) (state : S) :
    (perform store op).run state = (.ok (store op state).1, (store op state).2) := rfl

/-- The files of the in-memory store as the boot sees them. -/
def InMemStorage.view (decode : Bytes → FileContent) (store : InMemStorage) : Files :=
  fun path => (store.files path).map fun file => decode file.content

section InMemory

variable {decode : Bytes → FileContent} {store : InMemStorage} {history : List StorageOp}

theorem readIncarnationOn_inMemory (h : store.Holds history) (registry : Except RegistryError U64) (path : String) :
    (readIncarnationOn InMemStorage.step decode path).run store =
      (((readPersistedIncarnation { registry } path).run (store.view decode)).1, store) := by
  have hget : (InMemStorage.step (.get path) store).2 = store := by
    cases hfile : store.files path <;> simp [InMemStorage.step, hfile]
  rw [readIncarnationOn, Fallible.run_bind, run_perform, h.get, hget, ← h.content]
  simp only [readPersistedIncarnation, Fallible.run_bind, Fallible.run_get, InMemStorage.view]
  rcases store.files path with _ | file
  · rfl
  · simp only [Option.map_some, Option.getD_some, Fallible.run_bind, Fallible.run_ofExcept]
    rcases decodeIncarnation (decode file.content) with e | value
    · rfl
    · rfl

theorem persistStep_inMemory {op : StorageOp} (hok : (InMemStorage.step op store).1 = .ok none) :
    (persistStep InMemStorage.step op).run store = (.ok (), (InMemStorage.step op store).2) := by
  rw [persistStep, Fallible.run_bind, run_perform, hok]
  rfl

theorem persistIncarnationOn_inMemory (h : store.Holds history) (path dir : String) (incarnation : U64) :
    ∃ after, (persistIncarnationOn InMemStorage.step path dir incarnation).run store = (.ok (), after) := by
  have hput := h.concat (.put path ((renderU64 incarnation).map fun c => c.toNat.toUInt8))
  rw [persistIncarnationOn, Fallible.run_bind, persistStep_inMemory rfl]
  dsimp only
  rw [Fallible.run_bind, persistStep_inMemory (by rw [hput.fsyncFile]; simp [written_concat, StorageOp.write])]
  dsimp only
  rw [persistStep_inMemory rfl]
  exact ⟨_, rfl⟩

/-- Where nothing fails, a boot on the in-memory store gives what it gives on the store's files. -/
theorem fenceBootOn_inMemory (h : store.Holds history) (registry : Except RegistryError U64) (path dir : String) :
    ((fenceBootOn InMemStorage.step decode registry path dir).run store).1 =
      ((fenceBoot { registry } path dir).run (store.view decode)).1 := by
  rw [fenceBootOn, fenceBoot, Fallible.run_bind, readIncarnationOn_inMemory h registry, Fallible.run_bind]
  rcases readPersistedIncarnation_run { registry } path (store.view decode) with ⟨e, hread⟩ | hread
  · rw [hread]
  rw [hread]
  rcases registry with (text | text) | fresh
  · cases persisted path (store.view decode) <;> rfl
  · rfl
  · dsimp only
    split
    · rfl
    · obtain ⟨after, hpersist⟩ := persistIncarnationOn_inMemory h path dir fresh
      simp only [Fallible.run_bind, hpersist]
      rfl

end InMemory

/-! ### A first boot -/

/-- What a boot gives a node that never persisted an incarnation, where nothing fails. -/
def firstBoot : Except RegistryError U64 → Except BootError BootOutcome
  | .ok fresh => if fresh = 0 then .error (.registryIncarnationRegressed fresh none) else .ok (.active fresh)
  | .error (.unreachable _) => .ok .waiting
  | .error (.backend text) => .error (.registryBackend (.backend text))

theorem fenceBoot_absent {files : Files} {path : String} (hnone : files path = none) (registry : Except RegistryError U64)
    (dir : String) : ((fenceBoot { registry } path dir).run files).1 = firstBoot registry := by
  have hread : (readPersistedIncarnation { registry } path).run files = (.ok none, files) := by
    simp only [readPersistedIncarnation, Fallible.run_bind, Fallible.run_get, hnone]
    rfl
  rw [fenceBoot, Fallible.run_bind, hread]
  rcases registry with (text | text) | fresh
  · rfl
  · rfl
  · by_cases hzero : fresh = 0
    · subst hzero
      rfl
    · simp only [firstBoot, hzero, Option.any_none, Bool.false_eq_true, or_self, if_false]
      rfl

section Agreement

variable {Loc : Type} [DecidableEq Loc] (volume : Volume Loc) (root : String)

/-- After the history a boot on either store takes an absent incarnation file for a first boot. -/
def FirstBootOnEither (decode : Bytes → FileContent) (path dir : String) (history : List StorageOp) : Prop :=
  (written (· = path) history = none → ∀ registry,
    ((fenceBootOn InMemStorage.step decode registry path dir).run (inMemory history)).1 = firstBoot registry) ∧
  (FsStorage.writtenTo volume root path history = none → ∀ registry,
    ((fenceBootOn (FsStorage.step volume root) decode registry path dir).run (onDisk volume root history)).1 =
      firstBoot registry)

variable {volume root} {history : List StorageOp} {path : String}

theorem firstBoot_inMemory (decode : Bytes → FileContent) (habsent : written (· = path) history = none)
    (registry : Except RegistryError U64) (dir : String) :
    ((fenceBootOn InMemStorage.step decode registry path dir).run (inMemory history)).1 = firstBoot registry := by
  have h := InMemStorage.Holds.after history
  rw [fenceBootOn_inMemory h]
  have hfile : (inMemory history).files path = none := by
    have hcontent := h.content path
    rw [habsent, Option.map_eq_none_iff] at hcontent
    exact hcontent
  exact fenceBoot_absent (by rw [InMemStorage.view, hfile]; rfl) registry dir

/-- On the file store it is a failure, whatever the registry says. -/
theorem fenceBootOn_absent {disk : Disk Loc} (h : FsStorage.Holds volume root disk history)
    (hpath : FsStorage.OnFiles volume root (.get path)) (habsent : FsStorage.writtenTo volume root path history = none)
    (decode : Bytes → FileContent) (registry : Except RegistryError U64) (dir : String) :
    ((fenceBootOn (FsStorage.step volume root) decode registry path dir).run disk).1 =
      .error (.persistedIncarnationUnreadable (.backend Volume.notFoundText)) := by
  rw [fenceBootOn, Fallible.run_bind, readIncarnationOn, Fallible.run_bind, run_perform, h.get hpath, habsent]
  rfl

theorem firstBootOnEither_iff (hhistory : ∀ op ∈ history, FsStorage.OnFiles volume root op)
    (hpath : FsStorage.OnFiles volume root (.get path)) (decode : Bytes → FileContent) (dir : String) :
    FirstBootOnEither volume root decode path dir history ↔
      (FsStorage.writtenTo volume root path history).isSome = true := by
  refine ⟨fun ⟨_, hdisk⟩ => ?_, fun hsome => ⟨fun habsent registry => firstBoot_inMemory decode habsent registry dir,
    fun habsent => ?_⟩⟩
  · by_contra hnone
    have habsent := Option.not_isSome_iff_eq_none.mp hnone
    have hwaiting := hdisk habsent (.error (.unreachable ""))
    rw [fenceBootOn_absent (.after hhistory) hpath habsent] at hwaiting
    cases hwaiting
  · rw [habsent] at hsome
    cases hsome

end Agreement

/-- On files whose directory is there, the file store answers every step as the in-memory store does exactly where each
    step addresses what is present, and a boot takes an absent incarnation file for a first boot exactly where it is not
    absent. -/
theorem storage_agrees_iff {Loc : Type} [DecidableEq Loc] (volume : Volume Loc) (root : String) (ops : List StorageOp)
    (hops : ∀ op ∈ ops, FsStorage.OnFiles volume root op) :
    (StepsAgree volume root ops ↔ AddressesPresent volume root ops) ∧
      ∀ decode path dir, FsStorage.OnFiles volume root (.get path) →
        (FirstBootOnEither volume root decode path dir ops ↔
          (FsStorage.writtenTo volume root path ops).isSome = true) :=
  ⟨stepsAgree_iff hops, fun decode _ dir hpath => firstBootOnEither_iff hops hpath decode dir⟩

/-- A volume with one directory. -/
def flatVolume : Volume String where
  locate := id
  isDir path := path = "/data"
  parent := InMemStorage.parentDir

def asciiText (data : Bytes) : FileContent := .text (data.map fun byte => Char.ofNat byte.toNat)

/-- An incarnation that is persisted, replaced and read. -/
def incarnationSteps : List StorageOp :=
  [.put "incarnation" [55], .fsyncFile "incarnation", .fsyncDir "", .put "incarnation" [56], .get "incarnation"]

theorem storage_agrees_iff_incarnation : StepsAgree flatVolume "/data" incarnationSteps ∧
    FirstBootOnEither flatVolume "/data" asciiText "incarnation" "" incarnationSteps := by
  obtain ⟨hsteps, hboot⟩ := storage_agrees_iff flatVolume "/data" incarnationSteps (by decide)
  refine ⟨hsteps.mpr ?_, (hboot asciiText "incarnation" "" (by decide)).mpr (by decide)⟩
  have hops : incarnationSteps = ([] ++ [.put "incarnation" [55]] ++ [.fsyncFile "incarnation"] ++ [.fsyncDir ""] ++
    [.put "incarnation" [56]] ++ [.get "incarnation"]) := rfl
  rw [hops]
  simp only [addressesPresent_concat]
  refine ⟨⟨⟨⟨⟨addressesPresent_nil, trivial⟩, by decide, by decide⟩, trivial⟩, trivial⟩, [56], by decide, by decide⟩

/-- Where no incarnation was ever written, a node on the in-memory store waits and one on the file store does not boot. -/
theorem absent_incarnation_unreadable :
    FsStorage.OnFiles flatVolume "/data" (.get "incarnation") ∧
      ¬StepsAgree flatVolume "/data" [.get "incarnation"] ∧
      ((fenceBootOn InMemStorage.step asciiText (.error (.unreachable "")) "incarnation" "").run (inMemory [])).1 =
        .ok .waiting ∧
      ((fenceBootOn (FsStorage.step flatVolume "/data") asciiText (.error (.unreachable "")) "incarnation" "").run
        (onDisk flatVolume "/data" [])).1 = .error (.persistedIncarnationUnreadable (.backend Volume.notFoundText)) := by
  refine ⟨by decide, fun hagree => ?_, rfl, rfl⟩
  have hget := hagree [] (.get "incarnation") [] rfl
  have hdisk : (FsStorage.step flatVolume "/data" (.get "incarnation") (fun _ => none)).1 =
    .error (.backend Volume.notFoundText) := rfl
  have hstore : (InMemStorage.step (.get "incarnation") {}).1 = .error (.notFound "incarnation") := rfl
  simp [Store.after, SameAnswer, hdisk, hstore, Except.mapError, StorageError.kind] at hget

end Duckspout
