import Duckspout.Replication.Receive
import Duckspout.Lib.Fallible

/-! The boot ceremony (`duckspout-replication/src/boot.rs`): a node reads the incarnation it persisted
    last, draws a fresh one from the registry and persists it before it becomes active.

    A boot is run against the answers its ports give: the registry may answer anything, and each
    storage step may fail. A failed `put` changes nothing or stores the new text; writes do not tear. -/

namespace Duckspout

/-! ### Ports -/

/-- A failure of a storage step other than a missing file. -/
inductive StorageFault where
  | fsyncFailed
  | tornWrite
  | backend (text : String)
  deriving DecidableEq, Repr

/-- A storage failure as the port reports it. -/
inductive StorageError where
  | notFound (path : String)
  | fsyncFailed (path : String)
  | tornWrite (path : String)
  | backend (text : String)
  deriving DecidableEq, Repr

def StorageFault.at (path : String) : StorageFault → StorageError
  | .fsyncFailed => .fsyncFailed path
  | .tornWrite => .tornWrite path
  | .backend text => .backend text

inductive RegistryError where
  | unreachable (text : String)
  | backend (text : String)
  deriving DecidableEq, Repr

/-- The content of a file: a text, or bytes that are not UTF-8, with what the decoder says of them. -/
inductive FileContent where
  | text (chars : List Char)
  | notUtf8 (message : String)
  deriving DecidableEq, Repr

/-- The files of the node. -/
abbrev Files := String → Option FileContent

/-- What the ports do in one boot. A failed `put` says whether the new text is stored all the same. -/
structure BootPorts where
  registry : Except RegistryError U64
  get : Option StorageFault := none
  put : Option (StorageFault × Bool) := none
  fsyncFile : Option StorageFault := none
  fsyncDir : Option StorageFault := none

/-! ### Numbers as text -/

/-- The `White_Space` property of Unicode. -/
def isWhitespace (c : Char) : Bool :=
  (9 ≤ c.toNat && c.toNat ≤ 13) || c.toNat == 32 || c.toNat == 0x85 || c.toNat == 0xa0 || c.toNat == 0x1680 ||
    (0x2000 ≤ c.toNat && c.toNat ≤ 0x200a) || c.toNat == 0x2028 || c.toNat == 0x2029 || c.toNat == 0x202f ||
    c.toNat == 0x205f || c.toNat == 0x3000

/-- `str::trim`. -/
def trim (text : List Char) : List Char :=
  ((text.dropWhile isWhitespace).reverse.dropWhile isWhitespace).reverse

/-- One more digit of a number below `2^64`. -/
def pushDigit (acc : ℕ) (c : Char) : Except String ℕ :=
  if c.isDigit then
    if 10 * acc + (c.toNat - '0'.toNat) < 2 ^ 64 then .ok (10 * acc + (c.toNat - '0'.toNat))
    else .error "number too large to fit in target type"
  else .error "invalid digit found in string"

/-- `str::parse::<u64>`. -/
def parseU64 : List Char → Except String ℕ
  | [] => .error "cannot parse integer from empty string"
  | ['+'] => .error "invalid digit found in string"
  | '+' :: digits => digits.foldlM pushDigit 0
  | digits => digits.foldlM pushDigit 0

/-- `u64::to_string`. -/
def renderU64 (n : U64) : List Char := Nat.toDigits 10 n

/-! ### The ceremony -/

/-- The three-way result of one boot. -/
inductive BootOutcome where
  | active (incarnation : Incarnation)
  | degraded (incarnation : Incarnation)
  | waiting
  deriving DecidableEq, Repr

/-- Only an active node may take ownership actions. -/
def BootOutcome.permitsOwnershipActions : BootOutcome → Bool
  | .active _ => true
  | _ => false

inductive BootError where
  | persistedIncarnationUnreadable (error : StorageError)
  | persistedIncarnationCorrupt (text : String)
  | registryBackend (error : RegistryError)
  | registryIncarnationRegressed (drawn : ℕ) (persisted : Option ℕ)
  | persistFailed (error : StorageError)
  deriving DecidableEq, Repr

/-- A boot works on the files. -/
abbrev BootM := Fallible BootError Files

/-- The incarnation a content holds. -/
def decodeIncarnation : FileContent → Except BootError ℕ
  | .notUtf8 message => .error (.persistedIncarnationCorrupt ("not valid UTF-8: " ++ message))
  | .text chars => (parseU64 (trim chars)).mapError .persistedIncarnationCorrupt

/-- Reads the persisted incarnation; `none` where nothing was ever written. -/
def readPersistedIncarnation (ports : BootPorts) (path : String) : BootM (Option ℕ) := do
  match ports.get with
  | some fault => throw (.persistedIncarnationUnreadable (fault.at path))
  | none =>
    match (← get) path with
    | none => return none
    | some content =>
      match decodeIncarnation content with
      | .ok value => return some value
      | .error e => throw e

/-- One storage step that changes nothing. -/
def fsync (fault : Option StorageFault) (path : String) : BootM Unit :=
  match fault with
  | none => pure ()
  | some fault => throw (.persistFailed (fault.at path))

/-- `Storage::put`. -/
def putFile (ports : BootPorts) (path : String) (text : List Char) : BootM Unit := do
  match ports.put with
  | none => modify fun files => Function.update files path (some (.text text))
  | some (fault, stored) =>
    if stored then modify fun files => Function.update files path (some (.text text))
    throw (.persistFailed (fault.at path))

/-- Writes the incarnation, then makes its content and its name durable. -/
def persistIncarnation (ports : BootPorts) (path dir : String) (incarnation : U64) : BootM Unit := do
  putFile ports path (renderU64 incarnation)
  fsync ports.fsyncFile path
  fsync ports.fsyncDir dir

/-- One attempt. -/
def fenceBoot (ports : BootPorts) (path dir : String) : BootM BootOutcome := do
  let persisted ← readPersistedIncarnation ports path
  match ports.registry with
  | .ok fresh =>
    if fresh = 0 ∨ persisted.any (fun prior => decide ((fresh : ℕ) ≤ prior)) then
      throw (.registryIncarnationRegressed fresh persisted)
    persistIncarnation ports path dir fresh
    return .active fresh
  | .error (.unreachable _) =>
    match persisted with
    | some incarnation => return .degraded incarnation
    | none => return .waiting
  | .error error => throw (.registryBackend error)

/-- The incarnation that is persisted, where it can be read. -/
def persisted (path : String) (files : Files) : Option ℕ :=
  (files path).bind fun content => (decodeIncarnation content).toOption

/-- One boot of a node: the files before it, its result and the files after it. -/
structure BootRecord where
  before : Files
  result : Except BootError BootOutcome
  after : Files

/-- The boots of a node, one after the other on the same files. -/
def bootRun (path dir : String) : Files → List BootPorts → List BootRecord
  | _, [] => []
  | files, ports :: rest =>
    let booted := (fenceBoot ports path dir).run files
    ⟨files, booted.1, booted.2⟩ :: bootRun path dir booted.2 rest

/-! ### Round trip -/

theorem foldlM_pushDigit {cs : List Char} : ∀ {acc : ℕ}, (∀ c ∈ cs, c.isDigit = true) →
    Nat.ofDigitChars 10 cs acc < 2 ^ 64 → cs.foldlM pushDigit acc = .ok (Nat.ofDigitChars 10 cs acc) := by
  induction cs with
  | nil =>
    intro acc _ _
    rfl
  | cons c cs ih =>
    intro acc hdigits hlt
    rw [Nat.ofDigitChars_cons] at hlt ⊢
    have hstep : 10 * acc + (c.toNat - '0'.toNat) < 2 ^ 64 := by
      rw [Nat.ofDigitChars_eq_ofDigitChars_zero] at hlt
      have hpow : 1 ≤ 10 ^ cs.length := Nat.one_le_pow _ _ (by decide)
      exact (Nat.le_mul_of_pos_left _ hpow).trans_lt (Nat.lt_of_le_of_lt (Nat.le_add_right _ _) hlt)
    have hpush : pushDigit acc c = .ok (10 * acc + (c.toNat - '0'.toNat)) := by
      rw [pushDigit, if_pos (hdigits c List.mem_cons_self), if_pos hstep]
    rw [List.foldlM_cons, hpush]
    exact ih (fun d hd => hdigits d (List.mem_cons_of_mem _ hd)) hlt

theorem isDigit_renderU64 (n : U64) : ∀ c ∈ renderU64 n, c.isDigit = true :=
  fun _ hc => Nat.isDigit_of_mem_toDigits (by decide) (by decide) hc

theorem not_isWhitespace_of_isDigit {c : Char} (h : c.isDigit = true) : isWhitespace c = false := by
  obtain ⟨hlo, hhi⟩ := Char.isDigit_iff_toNat.mp h
  have h0 : '0'.toNat = 48 := rfl
  have h9 : '9'.toNat = 57 := rfl
  simp only [isWhitespace, Bool.or_eq_false_iff, Bool.and_eq_false_iff, decide_eq_false_iff_not, beq_eq_false_iff_ne]
  omega

theorem trim_digits {cs : List Char} (h : ∀ c ∈ cs, c.isDigit = true) : trim cs = cs := by
  have hdrop : ∀ ds : List Char, (∀ c ∈ ds, c.isDigit = true) → ds.dropWhile isWhitespace = ds := by
    intro ds hds
    cases ds with
    | nil => rfl
    | cons c ds => rw [List.dropWhile_cons_of_neg (by simp [not_isWhitespace_of_isDigit (hds c List.mem_cons_self)])]
  rw [trim, hdrop cs h, hdrop cs.reverse fun c hc => h c (List.mem_reverse.mp hc), List.reverse_reverse]

/-- What is written is read back. -/
theorem parseU64_renderU64 (n : U64) : parseU64 (trim (renderU64 n)) = .ok (n : ℕ) := by
  have hdigits := isDigit_renderU64 n
  rw [trim_digits hdigits]
  have hval : Nat.ofDigitChars 10 (renderU64 n) 0 = n := Nat.ofDigitChars_ten_toDigits
  have hfold := foldlM_pushDigit hdigits (by rw [hval]; exact n.isLt)
  rw [hval] at hfold
  have hplus : ∀ rest, renderU64 n ≠ '+' :: rest := by
    intro rest heq
    have hc := hdigits '+' (by rw [heq]; exact List.mem_cons_self)
    exact absurd hc (by decide)
  simp only [parseU64]
  split
  · exact absurd ‹renderU64 n = []› Nat.toDigits_ne_nil
  · exact absurd ‹_› (hplus _)
  · exact absurd ‹_› (hplus _)
  · exact hfold

theorem persisted_update (path : String) (files : Files) (n : U64) :
    persisted path (Function.update files path (some (.text (renderU64 n)))) = some (n : ℕ) := by
  simp only [persisted, Function.update_self, Option.bind_some, decodeIncarnation, parseU64_renderU64]
  rfl

/-! ### One boot -/

/-- What was there is still there or has grown. -/
def NotDecreased (before after : Option ℕ) : Prop := ∀ v ∈ before, ∃ w ∈ after, v ≤ w

theorem NotDecreased.refl (a : Option ℕ) : NotDecreased a a := fun v hv => ⟨v, hv, le_rfl⟩

theorem NotDecreased.trans {a b c : Option ℕ} (hab : NotDecreased a b) (hbc : NotDecreased b c) : NotDecreased a c := by
  intro v hv
  obtain ⟨w, hw, hvw⟩ := hab v hv
  obtain ⟨x, hx, hwx⟩ := hbc w hw
  exact ⟨x, hx, hvw.trans hwx⟩

/-- The files hold `fresh`, which is above everything that was persisted before. -/
def Persists (path : String) (before after : Files) (fresh : ℕ) : Prop :=
  0 < fresh ∧ (∀ prior ∈ persisted path before, prior < fresh) ∧ persisted path after = some fresh

theorem Persists.notDecreased {path : String} {before after : Files} {fresh : ℕ}
    (h : Persists path before after fresh) : NotDecreased (persisted path before) (persisted path after) :=
  fun v hv => ⟨fresh, h.2.2, (h.2.1 v hv).le⟩

theorem persists_update (path : String) (files : Files) {fresh : U64}
    (h : ¬(fresh = 0 ∨ (persisted path files).any (fun prior => decide ((fresh : ℕ) ≤ prior)) = true)) :
    Persists path files (Function.update files path (some (.text (renderU64 fresh)))) fresh := by
  obtain ⟨hzero, hany⟩ := not_or.mp h
  refine ⟨Nat.pos_of_ne_zero fun h => hzero (Fin.ext h), ?_, persisted_update path files fresh⟩
  intro prior hprior
  rw [Option.mem_def.mp hprior, Option.any_some, decide_eq_true_eq] at hany
  exact not_le.mp hany

theorem readPersistedIncarnation_run (ports : BootPorts) (path : String) (files : Files) :
    (∃ e, (readPersistedIncarnation ports path).run files = (.error e, files)) ∨
      (readPersistedIncarnation ports path).run files = (.ok (persisted path files), files) := by
  simp only [readPersistedIncarnation, persisted]
  rcases ports.get with _ | fault
  · simp only [Fallible.run_bind, Fallible.run_get]
    rcases files path with _ | content
    · exact Or.inr rfl
    · simp only [Option.bind_some]
      rcases decodeIncarnation content with e | value
      · exact Or.inl ⟨e, rfl⟩
      · exact Or.inr rfl
  · exact Or.inl ⟨_, rfl⟩

theorem persistIncarnation_run (ports : BootPorts) (path dir : String) (n : U64) (files : Files) :
    (∃ e, (persistIncarnation ports path dir n).run files = (.error e, files)) ∨
      ∃ result, (persistIncarnation ports path dir n).run files =
        (result, Function.update files path (some (.text (renderU64 n)))) := by
  simp only [persistIncarnation, putFile, fsync]
  rcases ports.put with _ | ⟨fault, stored⟩
  · rcases ports.fsyncFile with _ | fault <;> rcases ports.fsyncDir with _ | fault <;> exact Or.inr ⟨_, rfl⟩
  · cases stored with
    | true => exact Or.inr ⟨_, rfl⟩
    | false => exact Or.inl ⟨_, rfl⟩

/-- Everything one boot can do: become active with an incarnation it persisted, leave the files as they are
    without becoming active, or fail after the put. -/
theorem fenceBoot_cases (ports : BootPorts) (path dir : String) (files : Files) {result : Except BootError BootOutcome}
    {after : Files} (h : (fenceBoot ports path dir).run files = (result, after)) :
    (∃ fresh, result = .ok (.active fresh) ∧ Persists path files after fresh) ∨
      ((∀ i, result ≠ .ok (.active i)) ∧ after = files) ∨
      ∃ e fresh, result = .error e ∧ Persists path files after fresh := by
  have hquiet : ∀ r, (∀ i, r ≠ .ok (.active i)) → (r, files) = (result, after) →
      (∀ i, result ≠ .ok (.active i)) ∧ after = files := by
    rintro r hr heq
    obtain ⟨rfl, rfl⟩ := Prod.mk.inj heq
    exact ⟨hr, rfl⟩
  simp only [fenceBoot] at h
  rw [Fallible.run_bind] at h
  rcases readPersistedIncarnation_run ports path files with ⟨e, hread⟩ | hread
  · rw [hread] at h
    exact Or.inr (Or.inl (hquiet _ (by simp) h))
  rw [hread] at h
  dsimp only at h
  rcases hregistry : ports.registry with (text | text) | fresh <;> rw [hregistry] at h
  · rcases hprior : persisted path files with _ | prior <;> rw [hprior] at h
    · exact Or.inr (Or.inl (hquiet (.ok .waiting) (by simp) h))
    · exact Or.inr (Or.inl (hquiet (.ok (.degraded prior)) (by simp) h))
  · exact Or.inr (Or.inl (hquiet (.error (.registryBackend (.backend text))) (by simp) h))
  · by_cases hstale : fresh = 0 ∨ (persisted path files).any (fun prior => decide ((fresh : ℕ) ≤ prior)) = true
    · simp only [if_pos hstale] at h
      exact Or.inr (Or.inl (hquiet (.error (.registryIncarnationRegressed fresh (persisted path files))) (by simp) h))
    · simp only [if_neg hstale] at h
      have hfresh := persists_update path files hstale
      rw [Fallible.run_bind] at h
      rcases persistIncarnation_run ports path dir fresh files with ⟨e, hpersist⟩ | ⟨_ | _, hpersist⟩
      · rw [hpersist] at h
        exact Or.inr (Or.inl (hquiet _ (by simp) h))
      · rw [hpersist] at h
        obtain ⟨rfl, rfl⟩ := Prod.mk.inj h
        exact Or.inr (Or.inr ⟨_, fresh, rfl, hfresh⟩)
      · rw [hpersist] at h
        obtain ⟨rfl, rfl⟩ := Prod.mk.inj h
        exact Or.inl ⟨fresh, rfl, hfresh⟩

theorem notDecreased_fenceBoot (ports : BootPorts) (path dir : String) (files : Files) :
    NotDecreased (persisted path files) (persisted path ((fenceBoot ports path dir).run files).2) := by
  rcases hrun : (fenceBoot ports path dir).run files with ⟨result, after⟩
  rcases fenceBoot_cases ports path dir files hrun with ⟨fresh, -, h⟩ | ⟨-, rfl⟩ | ⟨e, fresh, -, h⟩
  · exact h.notDecreased
  · exact .refl _
  · exact h.notDecreased

/-! ### Any sequence of boots -/

/-- Every boot of a run begins with at least what was persisted at its start. -/
theorem notDecreased_bootRun {path dir : String} {boots : List BootPorts} : ∀ {files : Files},
    ∀ boot ∈ bootRun path dir files boots, NotDecreased (persisted path files) (persisted path boot.before) ∧
      NotDecreased (persisted path boot.before) (persisted path boot.after) := by
  induction boots with
  | nil => exact fun _ h => absurd h List.not_mem_nil
  | cons ports boots ih =>
    intro files boot hboot
    rcases List.mem_cons.mp hboot with rfl | hboot
    · exact ⟨.refl _, notDecreased_fenceBoot ports path dir files⟩
    · obtain ⟨hbefore, hafter⟩ := ih boot hboot
      exact ⟨(notDecreased_fenceBoot ports path dir files).trans hbefore, hafter⟩

theorem mem_bootRun {path dir : String} {boots : List BootPorts} : ∀ {files : Files},
    ∀ boot ∈ bootRun path dir files boots, ∃ ports, (fenceBoot ports path dir).run boot.before = (boot.result, boot.after) := by
  induction boots with
  | nil => exact fun _ h => absurd h List.not_mem_nil
  | cons ports boots ih =>
    intro files boot hboot
    rcases List.mem_cons.mp hboot with rfl | hboot
    · exact ⟨ports, rfl⟩
    · exact ih boot hboot

/-- Later boots begin with at least what earlier ones left. -/
theorem pairwise_bootRun {path dir : String} {boots : List BootPorts} : ∀ {files : Files},
    (bootRun path dir files boots).Pairwise fun earlier later =>
      NotDecreased (persisted path earlier.after) (persisted path later.before) := by
  induction boots with
  | nil => exact fun {_} => List.Pairwise.nil
  | cons ports boots ih => exact List.pairwise_cons.mpr ⟨fun boot hboot => (notDecreased_bootRun boot hboot).1, ih⟩

theorem active_persists {path dir : String} {files : Files} {boots : List BootPorts} {boot : BootRecord}
    (hboot : boot ∈ bootRun path dir files boots) {i : Incarnation} (hactive : boot.result = .ok (.active i)) :
    Persists path boot.before boot.after i := by
  obtain ⟨ports, hrun⟩ := mem_bootRun boot hboot
  rcases fenceBoot_cases ports path dir boot.before hrun with ⟨fresh, hr, h⟩ | ⟨hr, -⟩ | ⟨e, fresh, hr, -⟩
  · obtain rfl : i = fresh := by
      rw [hactive] at hr
      injection hr with hr
      injection hr
    exact h
  · exact absurd hactive (hr i)
  · rw [hactive] at hr
    cases hr

/-- Over any sequence of boots the active incarnations are non-zero and strictly increase, the persisted one never
    decreases, and a boot that ends degraded or waiting leaves it as it was. -/
theorem incarnations_increase (path dir : String) (files : Files) (boots : List BootPorts) :
    ((bootRun path dir files boots).Pairwise fun earlier later => ∀ i j, earlier.result = .ok (.active i) →
        later.result = .ok (.active j) → i < j) ∧
      (∀ boot ∈ bootRun path dir files boots, ∀ i, boot.result = .ok (.active i) →
        0 < i ∧ persisted path boot.after = some i) ∧
      (∀ boot ∈ bootRun path dir files boots,
        NotDecreased (persisted path boot.before) (persisted path boot.after)) ∧
      ((bootRun path dir files boots).Pairwise fun earlier later =>
        NotDecreased (persisted path earlier.after) (persisted path later.before)) ∧
      ∀ boot ∈ bootRun path dir files boots, ∀ outcome, boot.result = .ok outcome →
        outcome.permitsOwnershipActions = false → persisted path boot.after = persisted path boot.before := by
  refine ⟨?_, ?_, fun boot hboot => (notDecreased_bootRun boot hboot).2, pairwise_bootRun, ?_⟩
  · refine List.Pairwise.imp_of_mem ?_ pairwise_bootRun
    intro earlier later hearlier hlater hle i j hi hj
    obtain ⟨-, -, hafter⟩ := active_persists hearlier hi
    obtain ⟨-, hprior, -⟩ := active_persists hlater hj
    obtain ⟨w, hw, hiw⟩ := hle i hafter
    exact hiw.trans_lt (hprior w hw)
  · intro boot hboot i hi
    obtain ⟨hpos, -, hafter⟩ := active_persists hboot hi
    exact ⟨hpos, hafter⟩
  · intro boot hboot outcome hr hinactive
    obtain ⟨ports, hrun⟩ := mem_bootRun boot hboot
    rcases fenceBoot_cases ports path dir boot.before hrun with ⟨fresh, hr', -⟩ | ⟨-, hafter⟩ | ⟨e, fresh, hr', -⟩
    · rw [hr] at hr'
      injection hr' with hr'
      rw [hr'] at hinactive
      exact absurd hinactive (by simp [BootOutcome.permitsOwnershipActions])
    · rw [hafter]
    · rw [hr] at hr'
      cases hr'

end Duckspout
