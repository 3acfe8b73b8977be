import Duckspout.Drain.Coordinator
import Duckspout.Staging.Runs

/-! The latest view (`duckspout-judge/src/predicates/latest_view.rs`): which version of a changelog key the judge
    expects to be served, next to the version a sealed part keeps.

    The judge folds the acked entries by row and lets the greatest `(origin, seq)` win. A seal under a changelog plan
    keeps the first row of each key by `(origin, seq)`, so the two agree on a key only where it has one version. -/

namespace Duckspout

/-! ### The judge's fold -/

/-- One acked changelog record. -/
structure ChangelogEntry where
  dataset : DatasetId
  partition : PartitionId
  tenant : TenantId
  changelogKey : String
  origin : NodeId
  changelogSeq : U64
  tombstone : Bool
  value : Option String
  deriving DecidableEq, Repr

abbrev RecordSlot := DatasetId ×ₗ PartitionId ×ₗ NodeId ×ₗ U64

abbrev RowKey := DatasetId ×ₗ TenantId ×ₗ String

abbrev FoldOrder := NodeId ×ₗ U64

namespace ChangelogEntry

/-- What names one record. -/
def slot (e : ChangelogEntry) : RecordSlot :=
  toLex (e.dataset, toLex (e.partition, toLex (e.origin, e.changelogSeq)))

/-- What names one row of the latest view. -/
def rowKey (e : ChangelogEntry) : RowKey := toLex (e.dataset, toLex (e.tenant, e.changelogKey))

def foldOrder (e : ChangelogEntry) : FoldOrder := toLex (e.origin, e.changelogSeq)

end ChangelogEntry

/-- One entry into the map of records. -/
def dedupRecord (byRecord : OrdMap RecordSlot ChangelogEntry) (entry : ChangelogEntry) :
    Except (ChangelogEntry × ChangelogEntry) (OrdMap RecordSlot ChangelogEntry) :=
  match byRecord[entry.slot]? with
  | some previous => if previous ≠ entry then .error (previous, entry) else .ok (byRecord.insert entry.slot entry)
  | none => .ok (byRecord.insert entry.slot entry)

/-- The acked entries by record, or two entries of one record that differ. -/
def dedupRecords (acked : List ChangelogEntry) :
    Except (ChangelogEntry × ChangelogEntry) (OrdMap RecordSlot ChangelogEntry) :=
  acked.foldlM dedupRecord ∅

/-- One entry of the fold: it wins its row unless the row has a winner that is not before it. -/
def foldWinner (winners : OrdMap RowKey ChangelogEntry) (entry : ChangelogEntry) : OrdMap RowKey ChangelogEntry :=
  match winners[entry.rowKey]? with
  | some seen => if entry.foldOrder ≤ seen.foldOrder then winners else winners.insert entry.rowKey entry
  | none => winners.insert entry.rowKey entry

/-- By row, the entry with the greatest `(origin, seq)`. -/
def foldWinners (byRecord : OrdMap RecordSlot ChangelogEntry) : OrdMap RowKey ChangelogEntry :=
  (byRecord.toList.map (·.2)).foldl foldWinner ∅

/-- The winner of a row among the entries folded. -/
structure Wins (entries : List ChangelogEntry) (k : RowKey) (w : ChangelogEntry) : Prop where
  mem : w ∈ entries
  row : w.rowKey = k
  greatest : ∀ e ∈ entries, e.rowKey = k → e.foldOrder ≤ w.foldOrder

theorem get_foldWinner_ne {winners : OrdMap RowKey ChangelogEntry} {entry : ChangelogEntry} {k : RowKey}
    (h : entry.rowKey ≠ k) : (foldWinner winners entry)[k]? = winners[k]? := by
  simp only [foldWinner]
  split
  · split_ifs
    · rfl
    · rw [OrdMap.get_insert, if_neg h]
  · rw [OrdMap.get_insert, if_neg h]

theorem get_foldWinner_self (winners : OrdMap RowKey ChangelogEntry) (entry : ChangelogEntry) :
    (foldWinner winners entry)[entry.rowKey]? = some entry ∧
      (∀ seen, winners[entry.rowKey]? = some seen → seen.foldOrder < entry.foldOrder) ∨
    ∃ seen, winners[entry.rowKey]? = some seen ∧ (foldWinner winners entry)[entry.rowKey]? = some seen ∧
      entry.foldOrder ≤ seen.foldOrder := by
  simp only [foldWinner]
  rcases hseen : winners[entry.rowKey]? with _ | seen
  · exact .inl ⟨OrdMap.get_insert_self .., (fun _ h => by cases h)⟩
  · by_cases hle : entry.foldOrder ≤ seen.foldOrder
    · exact .inr ⟨seen, rfl, by simp [hle, hseen], hle⟩
    · refine .inl ⟨by simp [hle], fun _ h => ?_⟩
      cases h
      exact not_le.mp hle

theorem foldl_foldWinner (entries : List ChangelogEntry) (k : RowKey) :
    (∀ w, (entries.foldl foldWinner ∅)[k]? = some w → Wins entries k w) ∧
    ((entries.foldl foldWinner ∅)[k]? = none → ∀ e ∈ entries, e.rowKey ≠ k) := by
  induction entries using List.reverseRecOn with
  | nil =>
    refine ⟨fun w hw => ?_, fun _ e he => by cases he⟩
    rw [List.foldl_nil, OrdMap.get_empty] at hw
    cases hw
  | append_singleton entries e ih =>
    obtain ⟨hwins, hnone⟩ := ih
    rw [List.foldl_concat]
    by_cases hk : e.rowKey = k
    · subst hk
      rcases get_foldWinner_self (entries.foldl foldWinner ∅) e with ⟨hget, hbefore⟩ | ⟨seen, hseen, hget, hle⟩
      · rw [hget]
        refine ⟨fun w hw => ?_, fun h => by cases h⟩
        cases hw
        refine ⟨by simp, rfl, fun e' he' hrow => ?_⟩
        rcases List.mem_append.mp he' with he' | he'
        · rcases hseen : (entries.foldl foldWinner ∅)[e.rowKey]? with _ | seen
          · exact absurd hrow (hnone hseen e' he')
          · exact ((hwins seen hseen).greatest e' he' hrow).trans (hbefore seen hseen).le
        · rw [List.mem_singleton.mp he']
      · rw [hget]
        refine ⟨fun w hw => ?_, fun h => by cases h⟩
        cases hw
        have hw := hwins seen hseen
        refine ⟨List.mem_append_left _ hw.mem, hw.row, fun e' he' hrow => ?_⟩
        rcases List.mem_append.mp he' with he' | he'
        · exact hw.greatest e' he' hrow
        · rwa [List.mem_singleton.mp he']
    · rw [get_foldWinner_ne hk]
      refine ⟨fun w hw => ?_, fun h e' he' => ?_⟩
      · have hw := hwins w hw
        refine ⟨List.mem_append_left _ hw.mem, hw.row, fun e' he' hrow => ?_⟩
        rcases List.mem_append.mp he' with he' | he'
        · exact hw.greatest e' he' hrow
        · rw [List.mem_singleton.mp he'] at hrow
          exact absurd hrow hk
      · rcases List.mem_append.mp he' with he' | he'
        · exact hnone h e' he'
        · rwa [List.mem_singleton.mp he']

/-- The winner of a row is its greatest entry. -/
theorem foldWinners_spec {byRecord : OrdMap RecordSlot ChangelogEntry} {entries : List ChangelogEntry}
    (h : ∀ e, e ∈ byRecord.toList.map (·.2) ↔ e ∈ entries) {e : ChangelogEntry} (he : e ∈ entries) :
    ∃ w, (foldWinners byRecord)[e.rowKey]? = some w ∧ Wins entries e.rowKey w := by
  obtain ⟨hwins, hnone⟩ := foldl_foldWinner (byRecord.toList.map (·.2)) e.rowKey
  rcases hget : (foldWinners byRecord)[e.rowKey]? with _ | w
  · exact absurd rfl (hnone hget e ((h e).mpr he))
  · obtain ⟨hmem, hrow, hgreatest⟩ := hwins w hget
    exact ⟨w, rfl, (h w).mp hmem, hrow, fun e' he' => hgreatest e' ((h e').mpr he')⟩

/-- The map of records has exactly these entries, each under its slot. -/
def Records (byRecord : OrdMap RecordSlot ChangelogEntry) (entries : List ChangelogEntry) : Prop :=
  ∀ k e, byRecord[k]? = some e ↔ e ∈ entries ∧ e.slot = k

/-- Two acks of one record disagree. -/
def Conflicting (acked : List ChangelogEntry) : Prop := ∃ e ∈ acked, ∃ e' ∈ acked, e.slot = e'.slot ∧ e ≠ e'

theorem Records.not_conflicting {byRecord : OrdMap RecordSlot ChangelogEntry} {entries : List ChangelogEntry}
    (h : Records byRecord entries) : ¬ Conflicting entries := by
  rintro ⟨e, he, e', he', hslot, hne⟩
  have hget := (h e.slot e).mpr ⟨he, rfl⟩
  rw [(h e.slot e').mpr ⟨he', hslot.symm⟩] at hget
  exact hne (Option.some.inj hget).symm

/-- One more entry is recorded, or it disagrees with the one recorded. -/
theorem dedupRecord_spec {byRecord : OrdMap RecordSlot ChangelogEntry} {seen : List ChangelogEntry} (e : ChangelogEntry)
    (h : Records byRecord seen) : (∃ byRecord', dedupRecord byRecord e = .ok byRecord' ∧ Records byRecord' (seen ++ [e])) ∨
    ∃ previous ∈ seen, dedupRecord byRecord e = .error (previous, e) ∧ previous.slot = e.slot ∧ previous ≠ e := by
  have hinsert : ∀ hkeep : ∀ e', byRecord[e.slot]? = some e' → e' = e, Records (byRecord.insert e.slot e) (seen ++ [e]) := by
    intro hkeep k e'
    rw [OrdMap.get_insert, List.mem_append, List.mem_singleton]
    split_ifs with hk
    · subst hk
      constructor
      · rintro hsome
        cases hsome
        exact ⟨.inr rfl, rfl⟩
      · rintro ⟨hmem | rfl, hslot⟩
        · rw [hkeep e' ((h e.slot e').mpr ⟨hmem, hslot⟩)]
        · rfl
    · rw [h]
      refine ⟨fun hmem => ⟨.inl hmem.1, hmem.2⟩, ?_⟩
      rintro ⟨hmem | rfl, hslot⟩
      · exact ⟨hmem, hslot⟩
      · exact absurd hslot hk
  rcases hget : byRecord[e.slot]? with _ | previous
  · refine .inl ⟨_, ?_, hinsert fun e' he' => ?_⟩
    · simp only [dedupRecord, hget]
    · rw [hget] at he'
      cases he'
  · obtain ⟨hmem, hslot⟩ := (h e.slot previous).mp hget
    by_cases hne : previous ≠ e
    · exact .inr ⟨previous, hmem, by simp [dedupRecord, hget, hne], hslot, hne⟩
    · refine .inl ⟨_, ?_, hinsert fun e' he' => ?_⟩
      · simp [dedupRecord, hget, not_not.mp hne]
      · rw [hget] at he'
        cases he'
        exact not_not.mp hne

theorem foldlM_dedupRecord (acked : List ChangelogEntry) : ∀ (byRecord : OrdMap RecordSlot ChangelogEntry) seen,
    Records byRecord seen →
    (∃ byRecord', acked.foldlM dedupRecord byRecord = .ok byRecord' ∧ Records byRecord' (seen ++ acked)) ∨
    (∃ conflict, acked.foldlM dedupRecord byRecord = .error conflict) ∧ Conflicting (seen ++ acked) := by
  induction acked with
  | nil => exact fun byRecord seen h => .inl ⟨byRecord, rfl, by simpa using h⟩
  | cons e acked ih =>
    intro byRecord seen h
    rw [List.foldlM_cons]
    rcases dedupRecord_spec e h with ⟨byRecord', hstep, hrecords⟩ | ⟨previous, hmem, hstep, hslot, hne⟩
    · rw [hstep, show seen ++ e :: acked = seen ++ [e] ++ acked by simp]
      exact ih byRecord' _ hrecords
    · rw [hstep]
      exact .inr ⟨⟨_, rfl⟩, previous, List.mem_append_left _ hmem, e, by simp, hslot, hne⟩

/-- The acked entries are told apart by record exactly when no two acks of one record disagree. -/
theorem dedupRecords_cases (acked : List ChangelogEntry) :
    (∃ byRecord, dedupRecords acked = .ok byRecord ∧ Records byRecord acked) ∧ ¬ Conflicting acked ∨
    (∃ conflict, dedupRecords acked = .error conflict) ∧ Conflicting acked := by
  have hempty : Records ∅ [] := fun k e => by simp
  rcases foldlM_dedupRecord acked ∅ [] hempty with ⟨byRecord, hfold, hrecords⟩ | h
  · exact .inl ⟨⟨byRecord, hfold, hrecords⟩, hrecords.not_conflicting⟩
  · exact .inr h

theorem Records.dedupRecords_eq {byRecord : OrdMap RecordSlot ChangelogEntry} {acked : List ChangelogEntry}
    (h : Records byRecord acked) : dedupRecords acked = .ok byRecord := by
  rcases dedupRecords_cases acked with ⟨⟨byRecord', hdedup, hrecords⟩, -⟩ | ⟨-, hconflict⟩
  · have hsame : byRecord' = byRecord := OrdMap.ext fun k => Option.ext fun e => by rw [hrecords, h]
    rw [hdedup, hsame]
  · exact absurd hconflict h.not_conflicting

theorem Records.mem_values {byRecord : OrdMap RecordSlot ChangelogEntry} {entries : List ChangelogEntry}
    (h : Records byRecord entries) (e : ChangelogEntry) : e ∈ byRecord.toList.map (·.2) ↔ e ∈ entries := by
  constructor
  · intro he
    obtain ⟨⟨k, e'⟩, hmem, rfl⟩ := List.mem_map.mp he
    exact ((h k e').mp (OrdMap.mem_toList.mp hmem)).1
  · exact fun he => List.mem_map.mpr ⟨(e.slot, e), OrdMap.mem_toList.mpr ((h e.slot e).mpr ⟨he, rfl⟩), rfl⟩

/-- Entries of distinct records are the records. -/
theorem dedupRecords_spec {acked : List ChangelogEntry} (h : (acked.map (·.slot)).Nodup) :
    ∃ byRecord, dedupRecords acked = .ok byRecord ∧ ∀ e, e ∈ byRecord.toList.map (·.2) ↔ e ∈ acked := by
  rcases dedupRecords_cases acked with ⟨⟨byRecord, hdedup, hrecords⟩, -⟩ | ⟨-, e, he, e', he', hslot, hne⟩
  · exact ⟨byRecord, hdedup, hrecords.mem_values⟩
  · exact absurd (List.inj_on_of_nodup_map h he he' hslot) hne

/-! ### What a sealed part keeps -/

section Sealed

variable {columns : List String} {rows : List StagedRow}

/-- The row's key. -/
def StagedRow.keyOf (columns : List String) (r : StagedRow) : List Cell := columns.map r.cell

theorem StagedRow.le_refl (r : StagedRow) : r.le r := .inr ⟨rfl, Nat.le_refl _⟩

/-- One row of the seal's scan: kept unless a row of its key is. -/
def keepFirst (columns : List String) (kept : List StagedRow) (r : StagedRow) : List StagedRow :=
  if kept.any fun k => k.keyOf columns = r.keyOf columns then kept else kept ++ [r]

/-- Of a list in order, the rows kept have distinct keys, and each is the first of its key. -/
theorem foldl_keepFirst (columns : List String) (hsorted : rows.Pairwise StagedRow.le) :
    ((rows.foldl (keepFirst columns) []).map (·.keyOf columns)).Nodup ∧ rows.foldl (keepFirst columns) [] ⊆ rows ∧
    ∀ q ∈ rows, ∃ r ∈ rows.foldl (keepFirst columns) [], r.keyOf columns = q.keyOf columns ∧ r.le q := by
  induction rows using List.reverseRecOn with
  | nil => exact ⟨.nil, List.Subset.refl _, (fun q hq => by cases hq)⟩
  | append_singleton rows q ih =>
    rw [List.pairwise_append] at hsorted
    obtain ⟨hnodup, hsub, hfirst⟩ := ih hsorted.1
    rw [List.foldl_concat, keepFirst]
    split_ifs with hany
    · obtain ⟨k, hk, hkey⟩ := List.any_eq_true.mp hany
      refine ⟨hnodup, List.Subset.trans hsub (List.subset_append_left _ _), fun q' hq' => ?_⟩
      rcases List.mem_append.mp hq' with hq' | hq'
      · exact hfirst q' hq'
      · obtain rfl := List.mem_singleton.mp hq'
        exact ⟨k, hk, of_decide_eq_true hkey, hsorted.2.2 k (hsub hk) q' List.mem_cons_self⟩
    · refine ⟨?_, List.append_subset.mpr ⟨List.Subset.trans hsub (List.subset_append_left _ _),
        List.subset_append_right _ _⟩, fun q' hq' => ?_⟩
      · rw [List.map_append, List.map_singleton]
        refine List.nodup_append.mpr ⟨hnodup, List.nodup_singleton _, fun a ha b hb => ?_⟩
        obtain ⟨k, hk, rfl⟩ := List.mem_map.mp ha
        obtain rfl := List.mem_singleton.mp hb
        exact fun heq => hany (List.any_eq_true.mpr ⟨k, hk, decide_eq_true heq⟩)
      · rcases List.mem_append.mp hq' with hq' | hq'
        · obtain ⟨r, hr, hkey, hle⟩ := hfirst q' hq'
          exact ⟨r, List.mem_append_left _ hr, hkey, hle⟩
        · obtain rfl := List.mem_singleton.mp hq'
          exact ⟨q', by simp, rfl, q'.le_refl⟩

instance : Std.Total StagedRow.le := ⟨fun a b => by
  rcases lt_trichotomy a.origin b.origin with h | h | h
  · exact .inl (.inl h)
  · exact (le_total a.seq b.seq).imp (.inr ⟨h, ·⟩) (.inr ⟨h.symm, ·⟩)
  · exact .inr (.inl h)⟩

instance : IsTrans StagedRow StagedRow.le := ⟨fun a b c hab hbc => by
  rcases hab with hab | ⟨hab, hseq⟩
  · rcases hbc with hbc | ⟨hbc, -⟩
    · exact .inl (hab.trans hbc)
    · exact .inl (hbc ▸ hab)
  · rcases hbc with hbc | ⟨hbc, hseq'⟩
    · exact .inl (hab ▸ hbc)
    · exact .inr ⟨hab.trans hbc, hseq.trans hseq'⟩⟩

theorem StagedRow.le_antisymm {a b : StagedRow} (hab : a.le b) (hba : b.le a) : (a.origin, a.seq) = (b.origin, b.seq) := by
  rcases hab with hab | ⟨hab, hseq⟩
  · rcases hba with hba | ⟨hba, -⟩
    · exact absurd hba (lt_asymm hab)
    · exact absurd hba hab.ne'
  · rcases hba with hba | ⟨-, hseq'⟩
    · exact absurd hab hba.ne'
    · rw [hab, Fin.le_antisymm hseq hseq']

/-- Under a dedup key a sealed part has one row of each key, the first by `(origin, seq)`. -/
theorem sealedRows_spec (columns : List String) (rows : List StagedRow) :
    ((sealedRows (some columns) rows).map (·.keyOf columns)).Nodup ∧ sealedRows (some columns) rows ⊆ rows ∧
    ∀ q ∈ rows, ∃ r ∈ sealedRows (some columns) rows, r.keyOf columns = q.keyOf columns ∧ r.le q := by
  have heq : sealedRows (some columns) rows = (rows.insertionSort StagedRow.le).foldl (keepFirst columns) [] := rfl
  obtain ⟨hnodup, hsub, hfirst⟩ := foldl_keepFirst columns (List.pairwise_insertionSort StagedRow.le rows)
  rw [heq]
  refine ⟨hnodup, fun r hr => (List.mem_insertionSort _).mp (hsub hr), fun q hq => ?_⟩
  exact hfirst q ((List.mem_insertionSort _).mpr hq)

theorem filter_eq_singleton {α β : Type} [DecidableEq β] {f : α → β} {l : List α} {a : α} (h : (l.map f).Nodup)
    (ha : a ∈ l) : l.filter (fun b => f b = f a) = [a] := by
  induction l with
  | nil => cases ha
  | cons b l ih =>
    rw [List.map_cons, List.nodup_cons] at h
    rcases List.mem_cons.mp ha with rfl | ha
    · rw [List.filter_cons_of_pos (by simp), List.filter_eq_nil_iff.mpr]
      intro b hb
      simpa using fun heq : f b = f a => h.1 (List.mem_map.mpr ⟨b, hb, heq⟩)
    · rw [List.filter_cons_of_neg, ih h.2 ha]
      simpa using fun heq : f b = f a => h.1 (List.mem_map.mpr ⟨a, ha, heq.symm⟩)

end Sealed

/-! ### Keep-latest -/

/-- The judge's entries of a window's rows: each names its row, and two name one key when their key columns agree. -/
structure Journaled (key : WindowKey) (tenant : TenantId) (columns : List String) (rows : List StagedRow)
    (entry : StagedRow → ChangelogEntry) : Prop where
  dataset : ∀ r ∈ rows, (entry r).dataset = key.dataset
  partition : ∀ r ∈ rows, (entry r).partition = key.partition
  tenant : ∀ r ∈ rows, (entry r).tenant = tenant
  pair : ∀ r ∈ rows, (entry r).origin = r.origin ∧ (entry r).changelogSeq = r.seq
  key : ∀ r ∈ rows, ∀ q ∈ rows, (entry r).changelogKey = (entry q).changelogKey ↔ r.keyOf columns = q.keyOf columns

/-- Of every key of the window the sealed part has exactly one row, the greatest by `(origin, seq)`, and it is the one the
    judge's fold lets win. -/
def KeepsLatest (key : WindowKey) (plan : DatasetDrainPlan) (columns : List String) (entry : StagedRow → ChangelogEntry)
    (rows : List StagedRow) : Prop :=
  ∃ part sealed byRecord,
    sealBlocking ⟨key.dataset, key.partition, key.window, plan.eventTimeColumn, plan.dedupKey⟩ (some rows) =
      .ok (part, sealed) ∧
    dedupRecords (rows.map entry) = .ok byRecord ∧
    ∀ q ∈ rows, ∃ r ∈ rows, sealed.filter (·.keyOf columns = q.keyOf columns) = [r] ∧
      (∀ s ∈ rows, s.keyOf columns = q.keyOf columns → s.le r) ∧
      (foldWinners byRecord)[(entry q).rowKey]? = some (entry r)

section Latest

variable {key : WindowKey} {tenant : TenantId} {columns : List String} {rows : List StagedRow}
  {entry : StagedRow → ChangelogEntry}

theorem Journaled.nodup_slots (h : Journaled key tenant columns rows entry) (hdistinct : Distinct rows) :
    ((rows.map entry).map (·.slot)).Nodup := by
  rw [List.map_map]
  refine List.pairwise_map.mpr ((List.pairwise_map.mp hdistinct).imp_of_mem fun {r q} hr hq hne heq => hne ?_)
  have hslot : ((entry r).origin, (entry r).changelogSeq) = ((entry q).origin, (entry q).changelogSeq) :=
    congrArg (fun k : RecordSlot => k.2.2) heq
  rwa [(h.pair r hr).1, (h.pair r hr).2, (h.pair q hq).1, (h.pair q hq).2] at hslot

theorem Journaled.keyOf_of_rowKey (h : Journaled key tenant columns rows entry) {r q : StagedRow} (hr : r ∈ rows)
    (hq : q ∈ rows) (heq : (entry r).rowKey = (entry q).rowKey) : r.keyOf columns = q.keyOf columns :=
  (h.key r hr q hq).mp (congrArg (fun k : RowKey => k.2.2) heq)

/-- A part that keeps the latest row of each key has met each key once. -/
theorem nodup_of_keepsLatest {eventTimeColumn : String} {orderBy : List String} (hdistinct : Distinct rows)
    (h : KeepsLatest key ⟨orderBy, eventTimeColumn, some columns⟩ columns entry rows) :
    (rows.map (·.keyOf columns)).Nodup := by
  obtain ⟨_, _, _, hsealed, -, hlatest⟩ := h
  cases hsealed
  obtain ⟨-, -, hfirst⟩ := sealedRows_spec columns rows
  refine List.pairwise_map.mpr ((List.pairwise_map.mp hdistinct).imp_of_mem fun {r q} hr hq hne heq => hne ?_)
  obtain ⟨m, -, hone, hgreatest, -⟩ := hlatest r hr
  -- the one row of the key is the first of them too, so the key's rows share a pair
  have hleast : ∀ s ∈ rows, s.keyOf columns = r.keyOf columns → m.le s := by
    intro s hs hkey
    obtain ⟨l, hl, hlkey, hle⟩ := hfirst s hs
    have hin : l ∈ (sealedRows (some columns) rows).filter (·.keyOf columns = r.keyOf columns) :=
      List.mem_filter.mpr ⟨hl, decide_eq_true (hlkey.trans hkey)⟩
    rw [hone] at hin
    rwa [List.mem_singleton.mp hin] at hle
  have hmr := StagedRow.le_antisymm (hleast r hr rfl) (hgreatest r hr rfl)
  have hmq := StagedRow.le_antisymm (hleast q hq heq.symm) (hgreatest q hq heq.symm)
  exact hmr.symm.trans hmq

theorem keepsLatest_of_nodup {eventTimeColumn : String} {orderBy : List String} (hdistinct : Distinct rows)
    (hjournaled : Journaled key tenant columns rows entry) (h : (rows.map (·.keyOf columns)).Nodup) :
    KeepsLatest key ⟨orderBy, eventTimeColumn, some columns⟩ columns entry rows := by
  have honly : ∀ r ∈ rows, ∀ q ∈ rows, r.keyOf columns = q.keyOf columns → r = q :=
    fun r hr q hq => List.inj_on_of_nodup_map h hr hq
  obtain ⟨hnodup, hsub, hfirst⟩ := sealedRows_spec columns rows
  obtain ⟨byRecord, hrecords, hmem⟩ := dedupRecords_spec (hjournaled.nodup_slots hdistinct)
  refine ⟨_, _, byRecord, rfl, hrecords, fun q hq => ⟨q, hq, ?_, fun s hs hkey => ?_, ?_⟩⟩
  · obtain ⟨r, hr, hkey, -⟩ := hfirst q hq
    obtain rfl := honly r (hsub hr) q hq hkey
    exact filter_eq_singleton hnodup hr
  · rw [honly s hs q hq hkey]
    exact q.le_refl
  · obtain ⟨w, hget, hwins⟩ := foldWinners_spec hmem (List.mem_map_of_mem hq)
    obtain ⟨s, hs, rfl⟩ := List.mem_map.mp hwins.mem
    rw [hget, honly s hs q hq (hjournaled.keyOf_of_rowKey hs hq hwins.row)]

end Latest

/-- Under the plan of a changelog, the sealed part of a window keeps the latest row of every key, the judge's winner,
    exactly when no two rows of the window have the same key. -/
theorem keeps_latest_iff (decl : DatasetDeclaration) (hkind : decl.kind = .changelog) (eventTimeColumn : String)
    (key : WindowKey) (tenant : TenantId) (entry : StagedRow → ChangelogEntry) (rows : List StagedRow)
    (hdistinct : Distinct rows) (hjournaled : Journaled key tenant decl.keyCols rows entry) :
    KeepsLatest key (.fromDeclaration decl eventTimeColumn) decl.keyCols entry rows ↔
      (rows.map (·.keyOf decl.keyCols)).Nodup := by
  simp only [DatasetDrainPlan.fromDeclaration, hkind]
  exact ⟨nodup_of_keepsLatest hdistinct, keepsLatest_of_nodup hdistinct hjournaled⟩

/-- A changelog of accounts. -/
def accounts : DatasetDeclaration where
  dataset := ⟨"accounts"⟩
  kind := .changelog
  keyCols := ["account_id"]
  sortKey := none
  keyed := fun _ => by decide

/-- A version of an account's row. -/
def accountRow (account : String) (seq : U64) (plan : String) : StagedRow :=
  ⟨⟨"n1"⟩, seq, [("account_id", .other account), ("plan", .other plan)]⟩

/-- The acked entry of such a row. -/
def accountEntry (r : StagedRow) : ChangelogEntry where
  dataset := ⟨"accounts"⟩
  partition := ⟨"acme.0"⟩
  tenant := ⟨"acme"⟩
  changelogKey := match r.cell "account_id" with
    | .other account => account
    | _ => ""
  origin := r.origin
  changelogSeq := r.seq
  tombstone := false
  value := match r.cell "plan" with
    | .other plan => some plan
    | _ => none

/-- Two accounts of one version each. -/
theorem keeps_latest_single :
    KeepsLatest ⟨⟨"accounts"⟩, ⟨"acme.0"⟩, 0⟩ (.fromDeclaration accounts "ts") ["account_id"] accountEntry
      [accountRow "a" 1 "free", accountRow "b" 2 "free"] :=
  (keeps_latest_iff accounts rfl "ts" ⟨⟨"accounts"⟩, ⟨"acme.0"⟩, 0⟩ ⟨"acme"⟩ accountEntry
    [accountRow "a" 1 "free", accountRow "b" 2 "free"] (by decide)
    ⟨by decide, by decide, by decide, by decide, by decide⟩).mpr (by decide)

/-- The second version of an account's row, by the same origin, is replaced by the first. -/
theorem older_version_kept :
    ¬ KeepsLatest ⟨⟨"accounts"⟩, ⟨"acme.0"⟩, 0⟩ (.fromDeclaration accounts "ts") ["account_id"] accountEntry
      [accountRow "a" 1 "free", accountRow "a" 2 "paid"] := by
  rintro ⟨_, _, _, hsealed, -, hlatest⟩
  cases hsealed
  obtain ⟨r, -, hone, hgreatest, -⟩ := hlatest (accountRow "a" 1 "free") (by decide)
  have hkept : (sealedRows (some ["account_id"]) [accountRow "a" 1 "free", accountRow "a" 2 "paid"]).filter
      (·.keyOf ["account_id"] = (accountRow "a" 1 "free").keyOf ["account_id"]) = [accountRow "a" 1 "free"] := by
    decide
  have hr : r = accountRow "a" 1 "free" := by
    simpa using hone.symm.trans hkept
  have hle := hgreatest (accountRow "a" 2 "paid") (by decide) (by decide)
  rw [hr] at hle
  exact absurd hle (by decide)

end Duckspout
