import Duckspout.Types

/-! Deterministic naming. A part's object name (`duckspout-drain/src/naming.rs`) is a pure function of
    dataset, partition, window and discriminator, so every attempt to drain a window names the same
    object; a staging table's name (`duckspout-staging/src/naming.rs`) is one of dataset, partition and
    window. -/

namespace Duckspout

/-- One byte of an escaped id: `a-z` and `0-9` as they are, any other as `_` and two hex digits. -/
def escapeByte (b : UInt8) : List Char :=
  let c := Char.ofNat b.toNat
  if ('a' ≤ c ∧ c ≤ 'z') ∨ ('0' ≤ c ∧ c ≤ '9') then [c]
  else ['_', Nat.digitChar (b.toNat / 16), Nat.digitChar (b.toNat % 16)]

/-- Encodes one opaque id into `[a-z0-9_]`, byte by byte. -/
def encodeComponent (raw : String) : String :=
  String.ofList (raw.toUTF8.toList.flatMap escapeByte)

/-- The discriminator slot of the name; the part kind is implied. -/
inductive PartDiscriminator where
  | window
  | supplement (origin : NodeId) (firstSeq lastSeq : U64)
  | snapshot (asOfSeq : U64)
  deriving DecidableEq, Repr

/-- The part of the file name after the window. -/
def PartDiscriminator.tail : PartDiscriminator → String
  | .window => "primary"
  | .supplement origin firstSeq lastSeq =>
    "supplement-" ++ encodeComponent origin.raw ++ "-" ++ toString (firstSeq : ℕ) ++ "-" ++
      toString (lastSeq : ℕ)
  | .snapshot asOfSeq => "snapshot-" ++ toString (asOfSeq : ℕ)

/-- The deterministic object name of one part. -/
def partName (dataset : DatasetId) (partition : PartitionId) (window : WindowId)
    (discriminator : PartDiscriminator) : PartName :=
  ⟨encodeComponent dataset.raw ++ "/" ++ encodeComponent partition.raw ++ "/w" ++ toString window ++
    "-" ++ discriminator.tail ++ ".parquet"⟩

/-- The staging table of one window. -/
def windowTableName (dataset : DatasetId) (partition : PartitionId) (window : WindowId) : String :=
  "s_" ++ encodeComponent dataset.raw ++ "__" ++ encodeComponent partition.raw ++ "__w" ++ toString window

/-! ### Names tell their dataset -/

/-- The value of a hex digit. -/
def hexValue (c : Char) : ℕ := ((List.range 16).find? fun n => Nat.digitChar n = c).getD 0

theorem hexValue_digitChar : ∀ n < 16, hexValue (Nat.digitChar n) = n := by
  decide

/-- Reads one escaped byte. -/
def readByte : List Char → ℕ × List Char
  | '_' :: high :: low :: rest => (16 * hexValue high + hexValue low, rest)
  | c :: rest => (c.toNat, rest)
  | [] => (0, [])

theorem readByte_escapeByte (b : UInt8) (rest : List Char) : readByte (escapeByte b ++ rest) = (b.toNat, rest) := by
  have hb : b.toNat < 256 := b.toNat_lt
  have hc : (Char.ofNat b.toNat).toNat = b.toNat := by
    rw [Char.ofNat, dif_pos (Or.inl (by omega))]
    rfl
  unfold escapeByte
  dsimp only
  split_ifs with hplain
  · have hne : Char.ofNat b.toNat ≠ '_' := by
      rintro heq
      rw [heq] at hplain
      revert hplain
      decide
    rw [List.cons_append, List.nil_append]
    simp only [readByte]
    split
    · next heq => exact absurd (List.cons.inj heq).1 hne
    · next heq =>
      obtain ⟨rfl, rfl⟩ := List.cons.inj heq
      rw [hc]
    · next heq => cases heq
  · rw [List.cons_append, List.cons_append, List.cons_append, List.nil_append, readByte,
      hexValue_digitChar _ (by omega), hexValue_digitChar _ (by omega)]
    refine Prod.ext ?_ rfl
    change 16 * (b.toNat / 16) + b.toNat % 16 = b.toNat
    omega

/-- Escaped bytes are read back one by one. -/
theorem flatMap_escapeByte_injective {bs : List UInt8} : ∀ {cs : List UInt8},
    bs.flatMap escapeByte = cs.flatMap escapeByte → bs = cs := by
  have hne : ∀ b, escapeByte b ≠ [] := by
    intro b
    unfold escapeByte
    dsimp only
    split_ifs
    · simp
    · simp
  induction bs with
  | nil =>
    intro cs h
    cases cs with
    | nil => rfl
    | cons c cs => exact absurd (List.append_eq_nil_iff.mp h.symm).1 (hne c)
  | cons b bs ih =>
    intro cs h
    cases cs with
    | nil => exact absurd (List.append_eq_nil_iff.mp h).1 (hne b)
    | cons c cs =>
      rw [List.flatMap_cons, List.flatMap_cons] at h
      have hread := congrArg readByte h
      rw [readByte_escapeByte, readByte_escapeByte] at hread
      obtain ⟨hb, hrest⟩ := Prod.mk.inj hread
      rw [UInt8.toNat_inj.mp hb, ih hrest]

theorem toList_loop (bytes : ByteArray) (i : ℕ) (done : List UInt8) :
    ByteArray.toList.loop bytes i done = done.reverse ++ bytes.data.toList.drop i := by
  fun_induction ByteArray.toList.loop bytes i done with
  | case1 i done hlt ih =>
    have hi : i < bytes.data.toList.length := hlt
    have hget : bytes.get! i = bytes.data.toList[i] := getElem!_pos bytes.data i hlt
    rw [ih, List.drop_eq_getElem_cons hi, hget, List.reverse_cons, List.append_assoc, List.singleton_append]
  | case2 i done hge =>
    have hi : bytes.data.toList.length ≤ i := Nat.not_lt.mp hge
    rw [List.drop_eq_nil_of_le hi, List.append_nil]

theorem toUTF8_toList_injective {a b : String} (h : a.toUTF8.toList = b.toUTF8.toList) : a = b := by
  simp only [ByteArray.toList, toList_loop, List.reverse_nil, List.nil_append, List.drop_zero] at h
  exact String.toByteArray_inj.mp (ByteArray.ext (Array.toList_inj.mp h))

theorem encodeComponent_injective {a b : String} (h : encodeComponent a = encodeComponent b) : a = b :=
  toUTF8_toList_injective (flatMap_escapeByte_injective (String.ofList_injective h))

/-! ### The alphabet -/

/-- A character of an escaped id. -/
def NameChar (c : Char) : Prop := ('a' ≤ c ∧ c ≤ 'z') ∨ ('0' ≤ c ∧ c ≤ '9') ∨ c = '_'

instance : DecidablePred NameChar := fun c =>
  inferInstanceAs (Decidable (('a' ≤ c ∧ c ≤ 'z') ∨ ('0' ≤ c ∧ c ≤ '9') ∨ c = '_'))

theorem nameChar_escapeByte (b : UInt8) : ∀ c ∈ escapeByte b, NameChar c := by
  have hdigit : ∀ n < 16, NameChar (Nat.digitChar n) := by
    decide
  have hb : b.toNat < 256 := b.toNat_lt
  unfold escapeByte
  dsimp only
  split_ifs with hplain
  · intro c hc
    rw [List.mem_singleton.mp hc]
    exact hplain.imp_right .inl
  · simp only [List.forall_mem_cons, List.not_mem_nil, false_implies, implies_true, and_true]
    exact ⟨by decide, hdigit _ (by omega), hdigit _ (by omega)⟩

/-- An escaped id is made of `a-z`, `0-9` and underscores. -/
theorem nameChar_encodeComponent (raw : String) : ∀ c ∈ (encodeComponent raw).toList, NameChar c := by
  intro c hc
  rw [encodeComponent, String.toList_ofList] at hc
  obtain ⟨b, -, hmem⟩ := List.mem_flatMap.mp hc
  exact nameChar_escapeByte b c hmem

/-- So it holds none of the separators. -/
theorem not_mem_encodeComponent {sep : Char} (hsep : ¬ NameChar sep) (raw : String) :
    sep ∉ (encodeComponent raw).toList := fun h => hsep (nameChar_encodeComponent raw sep h)

theorem digits_toList (n : ℕ) : (toString n).toList = Nat.toDigits 10 n := String.toList_ofList

theorem isDigit_toString {n : ℕ} {c : Char} (h : c ∈ (toString n).toList) : c.isDigit := by
  rw [digits_toList] at h
  exact Nat.isDigit_of_mem_toDigits (by decide) (by decide) h

theorem not_mem_digits {sep : Char} (hsep : sep.isDigit = false) (n : ℕ) : sep ∉ (toString n).toList := by
  intro h
  rw [isDigit_toString h] at hsep
  cases hsep

theorem toString_injective {n k : ℕ} (h : (toString n).toList = (toString k).toList) : n = k := by
  rw [digits_toList, digits_toList] at h
  rw [← Nat.ofDigitChars_ten_toDigits (n := n), h, Nat.ofDigitChars_ten_toDigits]

/-! ### Object names -/

/-- A field ends at the first separator. -/
theorem cut_unique {sep : Char} {rest rest' : List Char} : ∀ {field field' : List Char}, sep ∉ field → sep ∉ field' →
    field ++ sep :: rest = field' ++ sep :: rest' → field = field' ∧ rest = rest'
  | [], [], _, _, h => ⟨rfl, by simpa using h⟩
  | [], c :: cs, _, h', h => absurd (List.cons.inj h).1 fun heq => h' (heq ▸ List.mem_cons_self)
  | c :: cs, [], h, _, h' => absurd (List.cons.inj h').1.symm fun heq => h (heq ▸ List.mem_cons_self)
  | c :: cs, d :: ds, h, h', heq => by
    obtain ⟨rfl, hrest⟩ := List.cons.inj heq
    obtain ⟨rfl, htail⟩ := cut_unique (fun hm => h (List.mem_cons_of_mem _ hm))
      (fun hm => h' (List.mem_cons_of_mem _ hm)) hrest
    exact ⟨rfl, htail⟩

theorem encodeComponent_toList_injective {a b : String}
    (h : (encodeComponent a).toList = (encodeComponent b).toList) : a = b :=
  encodeComponent_injective (String.toList_injective h)

theorem tail_supplement (origin : NodeId) (firstSeq lastSeq : U64) :
    (PartDiscriminator.supplement origin firstSeq lastSeq).tail.toList =
      "supplement-".toList ++ ((encodeComponent origin.raw).toList ++ '-' ::
        ((toString (firstSeq : ℕ)).toList ++ '-' :: (toString (lastSeq : ℕ)).toList)) := by
  have hdash : "-".toList = ['-'] := by decide
  simp [PartDiscriminator.tail, String.toList_append, hdash, List.append_assoc]

theorem tail_snapshot (asOfSeq : U64) :
    (PartDiscriminator.snapshot asOfSeq).tail.toList = "snapshot-".toList ++ (toString (asOfSeq : ℕ)).toList := by
  simp [PartDiscriminator.tail, String.toList_append]

/-- The kind token tells the grammars apart, and each is read back field by field. -/
theorem tail_injective {k k' : PartDiscriminator} (h : k.tail.toList = k'.tail.toList) : k = k' := by
  have hprimary : PartDiscriminator.window.tail.toList = ['p', 'r', 'i', 'm', 'a', 'r', 'y'] := by decide
  have hsupplement : "supplement-".toList = ['s', 'u', 'p', 'p', 'l', 'e', 'm', 'e', 'n', 't', '-'] := by decide
  have hsnapshot : "snapshot-".toList = ['s', 'n', 'a', 'p', 's', 'h', 'o', 't', '-'] := by decide
  have hdash : ¬ NameChar '-' := by decide
  cases k with
  | window =>
    cases k' with
    | window => rfl
    | supplement o f l => simp [hprimary, tail_supplement, hsupplement] at h
    | snapshot n => simp [hprimary, tail_snapshot, hsnapshot] at h
  | supplement o f l =>
    cases k' with
    | window => simp [hprimary, tail_supplement, hsupplement] at h
    | supplement o' f' l' =>
      rw [tail_supplement, tail_supplement] at h
      obtain ⟨ho, hrest⟩ := cut_unique (not_mem_encodeComponent hdash _) (not_mem_encodeComponent hdash _)
        (List.append_cancel_left h)
      obtain ⟨hf, hl⟩ := cut_unique (not_mem_digits (by decide) _) (not_mem_digits (by decide) _) hrest
      obtain ⟨raw⟩ := o
      obtain ⟨raw'⟩ := o'
      rw [PartDiscriminator.supplement.injEq, NodeId.mk.injEq]
      exact ⟨encodeComponent_toList_injective ho, Fin.ext (toString_injective hf), Fin.ext (toString_injective hl)⟩
    | snapshot n => simp [tail_supplement, hsupplement, tail_snapshot, hsnapshot] at h
  | snapshot n =>
    cases k' with
    | window => simp [hprimary, tail_snapshot, hsnapshot] at h
    | supplement o f l => simp [tail_supplement, hsupplement, tail_snapshot, hsnapshot] at h
    | snapshot n' =>
      rw [tail_snapshot, tail_snapshot] at h
      rw [PartDiscriminator.snapshot.injEq]
      exact Fin.ext (toString_injective (List.append_cancel_left h))

theorem partName_toList (d : DatasetId) (p : PartitionId) (w : WindowId) (k : PartDiscriminator) :
    (partName d p w k).raw.toList = (encodeComponent d.raw).toList ++ '/' :: ((encodeComponent p.raw).toList ++ '/' ::
      'w' :: ((toString w).toList ++ '-' :: (k.tail.toList ++ ".parquet".toList))) := by
  have hjoin : "/".toList = ['/'] ∧ "/w".toList = ['/', 'w'] ∧ "-".toList = ['-'] := by decide
  simp [partName, String.toList_append, hjoin, List.append_assoc]

/-- A name is read back field by field. -/
theorem fields_of_partName {d d' : DatasetId} {p p' : PartitionId} {w w' : WindowId} {k k' : PartDiscriminator}
    (h : partName d p w k = partName d' p' w' k') : d = d' ∧ p = p' ∧ w = w' ∧ k = k' := by
  have hslash : ¬ NameChar '/' := by decide
  have hlist := congrArg (fun name => name.raw.toList) h
  simp only [partName_toList] at hlist
  obtain ⟨hd, hrest⟩ := cut_unique (not_mem_encodeComponent hslash _) (not_mem_encodeComponent hslash _) hlist
  obtain ⟨hp, hfile⟩ := cut_unique (not_mem_encodeComponent hslash _) (not_mem_encodeComponent hslash _) hrest
  obtain ⟨hw, htail⟩ := cut_unique (not_mem_digits (by decide) _) (not_mem_digits (by decide) _)
    (List.cons.inj hfile).2
  obtain ⟨raw⟩ := d
  obtain ⟨raw'⟩ := d'
  obtain ⟨part⟩ := p
  obtain ⟨part'⟩ := p'
  rw [DatasetId.mk.injEq, PartitionId.mk.injEq]
  exact ⟨encodeComponent_toList_injective hd, encodeComponent_toList_injective hp, toString_injective hw,
    tail_injective (List.append_cancel_right htail)⟩

/-- The dataset of a part is what its name begins with. -/
theorem dataset_of_partName {d d' : DatasetId} {p p' : PartitionId} {w w' : WindowId} {k k' : PartDiscriminator}
    (h : partName d p w k = partName d' p' w' k') : d = d' := (fields_of_partName h).1

/-! ### Partition ids -/

/-- The shard is what follows the last dot. -/
theorem fields_of_fromTenantShard {t t' : TenantId} {n n' : ℕ}
    (h : PartitionId.fromTenantShard t n = PartitionId.fromTenantShard t' n') : t = t' ∧ n = n' := by
  have hlist : ∀ (t : TenantId) (n : ℕ), (PartitionId.fromTenantShard t n).raw.toList.reverse =
      (toString n).toList.reverse ++ '.' :: t.raw.toList.reverse := by
    intro t n
    have hdot : ".".toList = ['.'] := by decide
    simp [PartitionId.fromTenantShard, String.toList_append, hdot]
  have hrev := congrArg (fun p : PartitionId => p.raw.toList.reverse) h
  simp only [hlist] at hrev
  have hdot : ∀ k : ℕ, '.' ∉ (toString k).toList := not_mem_digits (by decide)
  obtain ⟨hn, ht⟩ := cut_unique (by simpa using hdot n) (by simpa using hdot n') hrev
  obtain ⟨raw⟩ := t
  obtain ⟨raw'⟩ := t'
  rw [TenantId.mk.injEq]
  exact ⟨String.toList_injective (List.reverse_injective ht), toString_injective (List.reverse_injective hn)⟩

/-! ### Table names -/

/-- No escaped byte begins with two underscores. -/
theorem escapeByte_ne_join (b : UInt8) (rest rest' : List Char) : escapeByte b ++ rest ≠ '_' :: '_' :: rest' := by
  have hdigit : ∀ n < 16, Nat.digitChar n ≠ '_' := by
    decide
  have hb : b.toNat < 256 := b.toNat_lt
  unfold escapeByte
  dsimp only
  split_ifs with hplain
  · intro heq
    rw [(List.cons.inj heq).1] at hplain
    revert hplain
    decide
  · intro heq
    exact hdigit _ (by omega) (List.cons.inj (List.cons.inj heq).2).1

/-- Escaped bytes end at the first join. -/
theorem flatMap_escapeByte_join {bs : List UInt8} : ∀ {cs : List UInt8} {rest rest' : List Char},
    bs.flatMap escapeByte ++ '_' :: '_' :: rest = cs.flatMap escapeByte ++ '_' :: '_' :: rest' → bs = cs ∧ rest = rest' := by
  induction bs with
  | nil =>
    intro cs rest rest' h
    cases cs with
    | nil => exact ⟨rfl, by simpa using h⟩
    | cons c cs =>
      rw [List.flatMap_cons, List.append_assoc] at h
      exact absurd h.symm (escapeByte_ne_join c _ _)
  | cons b bs ih =>
    intro cs rest rest' h
    cases cs with
    | nil =>
      rw [List.flatMap_cons, List.append_assoc] at h
      exact absurd h (escapeByte_ne_join b _ _)
    | cons c cs =>
      simp only [List.flatMap_cons, List.append_assoc] at h
      have hread := congrArg readByte h
      rw [readByte_escapeByte, readByte_escapeByte] at hread
      obtain ⟨hb, hrest⟩ := Prod.mk.inj hread
      obtain ⟨rfl, rfl⟩ := ih hrest
      exact ⟨by rw [UInt8.toNat_inj.mp hb], rfl⟩

/-- Distinct windows have distinct tables. -/
theorem windowTableName_injective {d d' : DatasetId} {p p' : PartitionId} {w w' : WindowId}
    (h : windowTableName d p w = windowTableName d' p' w') : d = d' ∧ p = p' ∧ w = w' := by
  have hchars : ∀ (d : DatasetId) (p : PartitionId) (w : WindowId), (windowTableName d p w).toList =
      's' :: '_' :: (d.raw.toUTF8.toList.flatMap escapeByte ++ '_' :: '_' ::
        (p.raw.toUTF8.toList.flatMap escapeByte ++ '_' :: '_' :: 'w' :: (toString w).toList)) := by
    intro d p w
    have hjoin : "s_".toList = ['s', '_'] ∧ "__".toList = ['_', '_'] ∧ "__w".toList = ['_', '_', 'w'] := by decide
    simp [windowTableName, encodeComponent, String.toList_append, hjoin, List.append_assoc]
  have hlist := congrArg String.toList h
  rw [hchars, hchars] at hlist
  obtain ⟨hd, hrest⟩ := flatMap_escapeByte_join (List.cons.inj (List.cons.inj hlist).2).2
  obtain ⟨hp, hw⟩ := flatMap_escapeByte_join hrest
  obtain ⟨raw⟩ := d
  obtain ⟨raw'⟩ := d'
  obtain ⟨part⟩ := p
  obtain ⟨part'⟩ := p'
  rw [DatasetId.mk.injEq, PartitionId.mk.injEq]
  exact ⟨toUTF8_toList_injective hd, toUTF8_toList_injective hp, toString_injective (List.cons.inj hw).2⟩

theorem nameChar_windowTableName (d : DatasetId) (p : PartitionId) (w : WindowId) :
    ∀ c ∈ (windowTableName d p w).toList, NameChar c := by
  have hjoin : "s_".toList = ['s', '_'] ∧ "__".toList = ['_', '_'] ∧ "__w".toList = ['_', '_', 'w'] := by decide
  have hs : NameChar 's' ∧ NameChar '_' ∧ NameChar 'w' := by decide
  intro c hc
  simp only [windowTableName, String.toList_append, hjoin, List.mem_append, List.mem_cons, List.not_mem_nil,
    or_false] at hc
  rcases hc with (((((rfl | rfl) | hd) | rfl | rfl) | hp) | rfl | rfl | rfl) | hw
  · exact hs.1
  · exact hs.2.1
  · exact nameChar_encodeComponent _ c hd
  · exact hs.2.1
  · exact hs.2.1
  · exact nameChar_encodeComponent _ c hp
  · exact hs.2.1
  · exact hs.2.1
  · exact hs.2.2
  · have hdigit := isDigit_toString hw
    simp only [Char.isDigit, Bool.and_eq_true, decide_eq_true_eq] at hdigit
    exact .inr (.inl hdigit)

/-- **Names are injective**: table names within `[a-z0-9_]`, object names, and the partition ids of a
    tenant's shards. -/
theorem names_identify :
    (∀ d p w d' p' w', (d, p, w) ≠ (d', p', w') → windowTableName d p w ≠ windowTableName d' p' w') ∧
    (∀ d p w, ∀ c ∈ (windowTableName d p w).toList, ('a' ≤ c ∧ c ≤ 'z') ∨ ('0' ≤ c ∧ c ≤ '9') ∨ c = '_') ∧
    (∀ d p w k d' p' w' k', (d, p, w, k) ≠ (d', p', w', k') → partName d p w k ≠ partName d' p' w' k') ∧
    ∀ t n t' n', (t, n) ≠ (t', n') → PartitionId.fromTenantShard t n ≠ PartitionId.fromTenantShard t' n' := by
  refine ⟨fun d p w d' p' w' hne h => hne ?_, nameChar_windowTableName, fun d p w k d' p' w' k' hne h => hne ?_,
    fun t n t' n' hne h => hne ?_⟩
  · obtain ⟨rfl, rfl, rfl⟩ := windowTableName_injective h
    rfl
  · obtain ⟨rfl, rfl, rfl, rfl⟩ := fields_of_partName h
    rfl
  · obtain ⟨rfl, rfl⟩ := fields_of_fromTenantShard h
    rfl

end Duckspout
