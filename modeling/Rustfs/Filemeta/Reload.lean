import Rustfs.Filemeta.InlineSection
import Rustfs.Filemeta.VersionRuns

/-!
# Version operations on a reloaded file

Between two operations a value may be written out and loaded again. Loading spells the
null version with the nil id, while an entry that was rewritten from its decoded body has
no id, and a delete looks for the nil id only.
-/

namespace Rustfs.Filemeta

open List Library Library.MessagePack Utils FileMeta

def FileMeta.SameFrame (fm next : FileMeta) : Prop :=
  next.data = fm.data ∧ next.metaVer = fm.metaVer

section Frames

variable {env : Runtime} {fi : FileInfo} {fm next last : FileMeta} {version : FileMetaVersion}

theorem FileMeta.SameFrame.refl (fm : FileMeta) : fm.SameFrame fm := ⟨rfl, rfl⟩

theorem FileMeta.SameFrame.trans (first : fm.SameFrame next) (second : next.SameFrame last) :
    fm.SameFrame last :=
  ⟨second.1.trans first.1, second.2.trans first.2⟩

theorem set_idx_frame (idx : Nat) (version : FileMetaVersion) (fm : FileMeta) :
    fm.SameFrame (fm.setIdx env idx version).2 := by
  unfold setIdx
  split
  · exact .refl fm
  · exact ⟨rfl, rfl⟩

theorem add_filemata_frame (version : FileMetaVersion) (fm : FileMeta) :
    fm.SameFrame (fm.addVersionFilemata env version).2 := by
  rcases add_version_filemata_cases env fm version with ⟨_, _, same⟩ | ⟨_, _, added⟩
  · rw [same]
    exact .refl fm
  · generalize (fm.addVersionFilemata env version).2 = next at added
    cases added with
    | inserted | replaced => exact ⟨rfl, rfl⟩

theorem update_version_frame (fi : FileInfo) (fm : FileMeta) :
    fm.SameFrame (fm.updateObjectVersion env fi).2 := by
  unfold updateObjectVersion updateObjectVersionWithOpts
  split
  all_goals exact ⟨rfl, rfl⟩

theorem change_object_frame (idx : Nat) (version : FileMetaVersion) (object : MetaObject)
    (fm : FileMeta) : fm.SameFrame (fm.changeObject env fi idx version object).2 := by
  unfold changeObject
  split
  · exact set_idx_frame _ _ fm
  split
  · exact set_idx_frame _ _ fm
  split
  · exact ⟨rfl, rfl⟩
  · exact ⟨rfl, rfl⟩
  · exact FileMeta.SameFrame.trans ⟨rfl, rfl⟩ (add_filemata_frame _ (fm.removeIdx idx))

theorem delete_object_frame (idx : Nat) (version : FileMetaVersion) (object : MetaObject)
    (fm : FileMeta) : fm.SameFrame (fm.deleteObject env fi idx version object).2 := by
  have changed := @change_object_frame env fi idx version object fm
  unfold deleteObject
  split
  · rename_i error next isNext
    rw [isNext] at changed
    exact changed
  · rename_i result next isNext
    rw [isNext] at changed
    cases fi.deleted with
    | true => exact changed.trans (add_filemata_frame _ next)
    | false => exact changed

theorem finish_delete_frame (found : Option Nat) (fm : FileMeta) :
    fm.SameFrame (fm.finishDelete env fi found).2 := by
  have missing : fm.SameFrame (if fi.deleted then fm.addEntry env (fi.deleteEntry env)
      else (.error .fileVersionNotFound, fm)).2 := by
    split
    · exact add_filemata_frame _ fm
    · exact .refl fm
  unfold finishDelete
  dsimp only
  split
  · exact missing
  split
  · exact .refl fm
  split
  · exact missing
  · exact delete_object_frame _ _ _ fm

theorem delete_version_frame (fi : FileInfo) (fm : FileMeta) :
    fm.SameFrame (fm.deleteVersion env fi).2 := by
  unfold deleteVersion
  split
  · exact .refl fm
  split
  · unfold deleteFreeVersion
    split
    · exact .refl fm
    · exact ⟨rfl, rfl⟩
  split
  · exact .refl fm
  · exact .refl fm
  · unfold updateMarker
    split
    · exact .refl fm
    · exact set_idx_frame _ _ fm
  · rename_i idx _
    unfold removeMarker addEntry
    split
    · exact FileMeta.SameFrame.trans ⟨rfl, rfl⟩ (add_filemata_frame _ (fm.removeIdx idx))
    · exact ⟨rfl, rfl⟩
  · unfold updateObject
    split
    · exact .refl fm
    · exact set_idx_frame _ _ fm
  · exact finish_delete_frame _ fm

/-- An added version may come with a new inline section. -/
def FileMeta.NextFrame (fi : FileInfo) (fm next : FileMeta) : Prop :=
  fm.SameFrame next ∨
    (fm.nextData (FileMeta.storedRequest fi) = .ok next.data ∧ next.metaVer = fm.metaVer)

theorem FileMeta.NextFrame.trans (first : fm.NextFrame fi next) (second : next.SameFrame last) :
    fm.NextFrame fi last := by
  rcases first with same | ⟨data, version⟩
  · exact .inl (same.trans second)
  · refine .inr ⟨?_, second.2.trans version⟩
    rw [second.1]
    exact data

theorem add_inner_frame (fi : FileInfo) (fm : FileMeta) :
    fm.NextFrame fi (fm.addVersionInner env fi).2 := by
  have added := @add_filemata_frame env (.fromFileInfo env (storedRequest fi)) fm
  unfold addVersionInner
  dsimp only
  split
  · exact .inl added
  split
  · exact .inl (.refl fm)
  rename_i data isData
  split
  · rename_i next isNext
    rw [isNext] at added
    exact .inr ⟨isData, added.2⟩
  · rename_i error next isNext
    rw [isNext] at added
    exact .inl added

theorem add_version_frame (fi : FileInfo) (fm : FileMeta) :
    fm.NextFrame fi (fm.addVersion env fi).2 := by
  have inner := @add_inner_frame env fi fm
  unfold addVersion
  split
  · exact .inl (.refl fm)
  · exact inner
  · rename_i free _
    split
    · exact .inl (.refl fm)
    · rename_i next isNext
      rw [isNext] at inner
      have record := @add_filemata_frame env free next
      split
      · exact .inl (.refl fm)
      · rename_i last isLast
        rw [isLast] at record
        exact inner.trans record

end Frames

/-- The payload of an addition can be stored, and so can its key beside the others. -/
structure VersionCall.PayloadFits (call : VersionCall) (fm : FileMeta) : Prop where
  short : ∀ data, call.fi.data = some data → data.length < 2 ^ 32
  room : call.operation = .addVersion → ∀ count, InlineData.entries fm.data = .ok count →
    count + 1 < 2 ^ 32

theorem uuid_text_nonempty (id : Uuid) : id.text.isEmpty = false := by
  unfold Uuid.text hyphenate
  simp

theorem data_key_fits (id : Option Uuid) {value : Bytes} (short : value.length < 2 ^ 32) :
    InlineData.FieldFits (dataKeyForVersion id, value) := by
  unfold dataKeyForVersion
  split
  · have named : nullVersionId.isEmpty = false := by decide
    have key : TextFits nullVersionId := by decide
    exact ⟨named, key, short⟩
  · exact ⟨uuid_text_nonempty _, uuid_text_fits _, short⟩

section Sections

variable {env : Runtime} {fm : FileMeta} {call : VersionCall}

theorem next_data_written {data : InlineData} (written : InlineData.Written fm.data)
    (isAddition : call.operation = .addVersion) (fits : call.PayloadFits fm)
    (stored : fm.nextData (FileMeta.storedRequest call.fi) = .ok data) : InlineData.Written data := by
  unfold nextData at stored
  split at stored
  · rename_i value isValue
    exact written.replace (data_key_fits _ (fits.short value isValue)) (fits.room isAddition) stored
  · obtain ⟨⟨found, last⟩, removed, rfl⟩ := Outcome.map_eq_ok.1 stored
    exact written.remove_key removed

theorem apply_written (written : InlineData.Written fm.data) (fits : call.PayloadFits fm) :
    InlineData.Written (call.apply env fm).data ∧ (call.apply env fm).metaVer = fm.metaVer := by
  unfold VersionCall.apply VersionCall.perform
  cases isOperation : call.operation with
  | addVersion =>
    rcases @add_version_frame (call.runtime env) call.fi fm with same | ⟨stored, version⟩
    · refine ⟨?_, same.2⟩
      rw [same.1]
      exact written
    · exact ⟨next_data_written written isOperation fits stored, version⟩
  | updateObjectVersion =>
    have same := @update_version_frame (call.runtime env) call.fi fm
    refine ⟨?_, same.2⟩
    rw [same.1]
    exact written
  | deleteVersion =>
    have same := @delete_version_frame (call.runtime env) call.fi fm
    refine ⟨?_, same.2⟩
    rw [same.1]
    exact written

end Sections

/-- The list that a marshalled value loads to. -/
def FileMeta.reload (env : Runtime) (fm : FileMeta) : Except Error FileMeta :=
  FileMeta.load env.hash (fm.marshalMsg env.hash)

/-- Both loads give lists with equal headers and bodies, or neither succeeds. -/
def loadsAlike (env : Runtime) : Except Error FileMeta → Except Error FileMeta → Prop
  | .ok left, .ok right => List.Forall₂ (fun left right : FileMetaShallowVersion =>
    left.header = right.header ∧ left.parseVersionMeta env = right.parseVersionMeta env)
    left.versions right.versions
  | .error left, .error right => left = right
  | .ok _, .error _ | .error _, .ok _ => False

/-- A call on the value and on the reloaded value: one result, and values that load alike. -/
def FileMeta.Transparent (env : Runtime) (call : VersionCall) (fm : FileMeta) : Prop :=
  ∃ loaded, fm.reload env = .ok loaded ∧ (call.perform env fm).1 = (call.perform env loaded).1 ∧
    loadsAlike env ((call.perform env fm).2.reload env) ((call.perform env loaded).2.reload env)

/-- Every entry carries the id of its version, the null version the nil id. An entry without one
is what a rewrite of a decoded body leaves. -/
def FileMeta.Spelled (fm : FileMeta) : Prop :=
  ∀ entry ∈ fm.versions, entry.header.versionId.isSome = true

section Reloading

variable {env : Runtime} {fm : FileMeta}

theorem loads_alike_refl (env : Runtime) (outcome : Except Error FileMeta) :
    loadsAlike env outcome outcome := by
  cases outcome with
  | error error => exact Eq.refl error
  | ok loaded => exact forall₂_same.2 fun entry _ => ⟨Eq.refl _, Eq.refl _⟩

theorem FileMeta.WellFormed.reload (formed : fm.WellFormed env)
    (written : InlineData.Written fm.data) (short : fm.metaBlock.length < 2 ^ 32) :
    fm.reload env = .ok fm.reloaded := by
  apply load_marshal _ short written.validate
  intro entry member
  obtain ⟨version, count, walk, _, storable, rfl⟩ := formed.stored entry member
  cases storable with
  | object storable | marker storable => exact storable.modTime

theorem FileMeta.WellFormed.reloaded_eq (formed : fm.WellFormed env) (spelled : fm.Spelled)
    (current : fm.metaVer = 3) : fm.reloaded = fm := by
  have same : ∀ entry ∈ fm.versions, entry.reloaded = entry := by
    intro entry member
    have isSome := spelled entry member
    obtain ⟨version, count, walk, _, storable, rfl⟩ := formed.stored entry member
    have sameTime : normalTime version.getModTime = version.getModTime := by
      cases storable with
      | object storable | marker storable => exact normal_time_timely storable.timely
    obtain ⟨id, isId⟩ := Option.isSome_iff_exists.1 isSome
    have sameId : some ((version.header env).versionId.getD Uuid.nil) =
        (version.header env).versionId := by
      rw [isId]
      rfl
    unfold FileMetaShallowVersion.reloaded FileMetaVersionHeader.reloaded
    rw [sameId]
    change FileMetaShallowVersion.mk { version.header env with
      modTime := normalTime version.getModTime } _ = _
    rw [sameTime]
    rfl
  unfold reloaded
  rw [map_congr_left same, map_id', ← current]

end Reloading

section Unspelled

variable {env : Runtime} {fi : FileInfo} {fm : FileMeta} {update : Bool}
  {versions : List FileMetaShallowVersion} {entry : FileMetaShallowVersion}

theorem delete_scan_absent
    (absent : ∀ entry ∈ versions, entry.header.versionId ≠ fi.targetId) (start : Nat)
    (found : Option Nat) : deleteScan fi update versions start found = .finished found := by
  induction versions generalizing start with
  | nil => rfl
  | cons entry versions ih =>
    rw [forall_mem_cons] at absent
    rw [deleteScan, if_pos absent.1]
    exact ih absent.2 (start + 1)

theorem delete_scan_present (distinct : (denotedIds versions).Nodup) (kinds : ∀ entry ∈ versions,
      entry.header.versionType = .object ∨ entry.header.versionType = .delete)
    (plain : fi.tierFreeVersion = false)
    (present : ∃ entry ∈ versions, entry.header.versionId = fi.targetId) (start : Nat) :
    (∃ idx, deleteScan fi false versions start none = .removeMarker idx) ∨
      ∃ offset entry, versions[offset]? = some entry ∧ entry.header.versionType = .object ∧
        deleteScan fi false versions start none = .finished (some (start + offset)) := by
  induction versions generalizing start with
  | nil =>
    obtain ⟨entry, member, _⟩ := present
    cases member
  | cons entry versions ih =>
    have distinctRest := nodup_cons.1 distinct
    rw [forall_mem_cons] at kinds
    by_cases here : entry.header.versionId = fi.targetId
    · rw [deleteScan, if_neg (not_not.2 here), plain, Bool.false_and, if_neg Bool.false_ne_true]
      rcases kinds.1 with isObject | isMarker
      · right
        have absent : ∀ other ∈ versions, other.header.versionId ≠ fi.targetId := by
          intro other member same
          apply distinctRest.1
          refine mem_map.2 ⟨other, member, ?_⟩
          exact congrArg (Option.getD · Uuid.nil) (same.trans here.symm)
        refine ⟨0, entry, rfl, isObject, ?_⟩
        rw [isObject]
        exact delete_scan_absent absent (start + 1) (some start)
      · left
        rw [isMarker]
        exact ⟨start, rfl⟩
    · obtain ⟨found, member, same⟩ := present
      have later : ∃ entry ∈ versions, entry.header.versionId = fi.targetId := by
        rcases mem_cons.1 member with rfl | inRest
        · exact absurd same here
        · exact ⟨found, inRest, same⟩
      rw [deleteScan, if_pos here]
      rcases ih distinctRest.2 kinds.2 later (start + 1) with
        stops | ⟨offset, other, isOther, isObject, finished⟩
      · exact .inl stops
      · refine .inr ⟨offset + 1, other, isOther, isObject, ?_⟩
        rw [finished, Nat.add_assoc, Nat.add_comm 1 offset]

def nullDelete (env : Runtime) : VersionCall :=
  ⟨.deleteVersion, { FileInfo.default with expireRestored := true }, env.now, env.walk⟩

theorem null_delete_eq (env : Runtime) (fm : FileMeta) :
    (nullDelete env).perform env fm =
      match deleteScan (nullDelete env).fi false fm.versions 0 none with
      | .notFree => (.error .fileVersionNotFound, fm)
      | .invalid => (.error (.other "invalid file meta version"), fm)
      | .updateMarker idx => fm.updateMarker env (nullDelete env).fi idx
      | .removeMarker idx => fm.removeMarker env (nullDelete env).fi idx
      | .updateObject idx => fm.updateObject env (nullDelete env).fi idx
      | .finished found => fm.finishDelete env (nullDelete env).fi found := by
  have update : ∀ marker, (nullDelete env).fi.updatesVersion marker = false := by
    intro marker
    cases marker with
    | true => rfl
    | false => rfl
  change fm.deleteVersion env (nullDelete env).fi = _
  have valid : (nullDelete env).fi.validateForDeleteOperation env = .ok () := rfl
  unfold deleteVersion
  rw [valid, update]
  rfl

theorem null_delete_unspelled (formed : fm.WellFormed env)
    (member : entry ∈ fm.versions) (unspelled : entry.header.versionId = none) :
    ((nullDelete env).perform env fm).1 = .error .fileVersionNotFound := by
  have absent : ∀ other ∈ fm.versions, other.header.versionId ≠ (nullDelete env).fi.targetId := by
    intro other isOther same
    have denoted : other.header.denotes = entry.header.denotes := by
      unfold FileMetaVersionHeader.denotes
      rw [same, unspelled]
      rfl
    have equal := inj_on_of_nodup_map formed.distinct isOther member denoted
    rw [equal, unspelled] at same
    cases same
  rw [null_delete_eq, delete_scan_absent absent]
  rfl

theorem reloaded_denoted_ids (fm : FileMeta) :
    denotedIds fm.reloaded.versions = denotedIds fm.versions := by
  unfold denotedIds reloaded
  rw [map_map]
  rfl

theorem FileMeta.WellFormed.kinds (formed : fm.WellFormed env) :
    ∀ entry ∈ fm.versions,
      entry.header.versionType = .object ∨ entry.header.versionType = .delete := by
  intro entry member
  obtain ⟨version, count, walk, _, storable, rfl⟩ := formed.stored entry member
  cases storable with
  | object _ => exact .inl rfl
  | marker _ => exact .inr rfl

theorem FileMeta.WellFormed.read_reloaded (formed : fm.WellFormed env) {idx : Nat}
    (isEntry : fm.reloaded.versions[idx]? = some entry)
    (isObject : entry.header.versionType = .object) :
    ∃ object, fm.reloaded.getIdx env idx = .ok (.ofObject object) := by
  obtain ⟨inside, isThere⟩ := List.getElem?_eq_some_iff.1 isEntry
  unfold reloaded at isEntry
  rw [getElem?_map] at isEntry
  obtain ⟨old, isOld, rfl⟩ := Option.map_eq_some_iff.1 isEntry
  obtain ⟨version, count, walk, room, storable, rfl⟩ :=
    formed.stored old (mem_of_getElem? isOld)
  have parsed := @FileMetaVersion.Storable.parse env _ _ storable room (version.header env) walk
  cases storable with
  | marker _ => cases isObject
  | @object object _ =>
    refine ⟨object.normal, ?_⟩
    unfold getIdx
    rw [getElem?_eq_getElem inside, isThere]
    exact parsed

theorem null_delete_reloaded (formed : fm.WellFormed env)
    (member : entry ∈ fm.versions) (unspelled : entry.header.versionId = none) :
    ∃ dir, ((nullDelete env).perform env fm.reloaded).1 = .ok dir := by
  have distinct : (denotedIds fm.reloaded.versions).Nodup := by
    rw [reloaded_denoted_ids]
    exact formed.distinct
  have kinds : ∀ entry ∈ fm.reloaded.versions,
      entry.header.versionType = .object ∨ entry.header.versionType = .delete := by
    intro entry isEntry
    obtain ⟨old, isOld, rfl⟩ := mem_map.1 isEntry
    exact formed.kinds old isOld
  have present : ∃ entry ∈ fm.reloaded.versions,
      entry.header.versionId = (nullDelete env).fi.targetId := by
    refine ⟨entry.reloaded, mem_map.2 ⟨entry, member, rfl⟩, ?_⟩
    change some (entry.header.versionId.getD Uuid.nil) = _
    rw [unspelled]
    rfl
  rw [null_delete_eq]
  rcases delete_scan_present distinct kinds rfl present 0 with
    ⟨idx, stops⟩ | ⟨offset, found, isFound, isObject, finished⟩
  · rw [stops]
    exact ⟨none, rfl⟩
  · obtain ⟨object, read⟩ := formed.read_reloaded isFound isObject
    have inside := get_idx_inside read
    rw [finished, Nat.zero_add]
    unfold finishDelete
    dsimp only
    rw [read]
    change ∃ dir, (fm.reloaded.deleteObject env (nullDelete env).fi offset _ object).1 = .ok dir
    have expires : (nullDelete env).fi.expireRestored = true := rfl
    have changed : (fm.reloaded.changeObject env (nullDelete env).fi offset
        (.ofObject object) object).1 = .ok (.ok ()) := by
      unfold changeObject
      rw [if_pos expires]
      dsimp only
      rw [set_idx_eq inside]
    unfold deleteObject
    generalize fm.reloaded.changeObject env (nullDelete env).fi offset (.ofObject object) object =
      outcome at changed
    obtain ⟨result, next⟩ := outcome
    cases changed
    exact ⟨_, rfl⟩

end Unspelled

section Runs

variable {env : Runtime}

theorem run_calls_written (calls : List VersionCall)
    (fits : ∀ earlier call later, calls = earlier ++ call :: later →
      call.PayloadFits (runCalls env earlier)) :
    InlineData.Written (runCalls env calls).data ∧ (runCalls env calls).metaVer = 3 := by
  induction calls using List.reverseRecOn with
  | nil => exact ⟨⟨[], rfl, by decide, fun field member => by cases member⟩, rfl⟩
  | append_singleton calls call ih =>
    obtain ⟨written, current⟩ := ih fun earlier call later isCalls =>
      fits earlier call (later ++ [_]) (by rw [isCalls, append_assoc]; rfl)
    have applied := @apply_written env _ call written (fits calls call [] rfl)
    rw [run_calls_append]
    exact ⟨applied.1, applied.2.trans current⟩

theorem null_delete_runtime (env : Runtime) (calls : List VersionCall) (fm : FileMeta) :
    (nullDelete (lastRuntime env calls)).perform env fm =
      (nullDelete (lastRuntime env calls)).perform (lastRuntime env calls) fm := by
  unfold lastRuntime
  cases calls.getLast? with
  | none => rfl
  | some call => rfl

/-- In every state that a run of storable calls reaches, the value can be loaded again, and
reloading it is transparent to every next call if and only if every entry carries its id. The
metadata block of the state has to be short enough for its length word. -/
theorem reload_transparent_iff (env : Runtime) (calls : List VersionCall)
    (safe : ∀ earlier call later, calls = earlier ++ call :: later →
      call.Safe env (lastRuntime env earlier) (runCalls env earlier) ∧
        call.PayloadFits (runCalls env earlier))
    (short : (runCalls env calls).metaBlock.length < 2 ^ 32) :
    (∃ loaded, (runCalls env calls).reload env = .ok loaded) ∧
      ((∀ next, (runCalls env calls).Transparent env next) ↔ (runCalls env calls).Spelled) := by
  have formed := run_calls_well_formed calls fun earlier call later isCalls =>
    (safe earlier call later isCalls).1
  obtain ⟨written, current⟩ := run_calls_written calls fun earlier call later isCalls =>
    (safe earlier call later isCalls).2
  have loads : (runCalls env calls).reload env = .ok (runCalls env calls).reloaded := by
    have read := formed.reload written short
    unfold FileMeta.reload at read ⊢
    rwa [(last_runtime_shared env calls).1] at read
  refine ⟨⟨_, loads⟩, ?_, ?_⟩
  · intro transparent entry member
    by_contra unspelled
    have isNone : entry.header.versionId = none := Option.not_isSome_iff_eq_none.1 unspelled
    obtain ⟨loaded, isLoaded, sameResult, _⟩ := transparent (nullDelete (lastRuntime env calls))
    rw [loads] at isLoaded
    cases isLoaded
    obtain ⟨dir, found⟩ := null_delete_reloaded formed member isNone
    rw [null_delete_runtime, null_delete_runtime, found,
      null_delete_unspelled formed member isNone] at sameResult
    cases sameResult
  · intro spelled next
    refine ⟨_, loads, ?_⟩
    rw [formed.reloaded_eq spelled current]
    exact ⟨rfl, loads_alike_refl env _⟩

end Runs

theorem first_call_safe (earlier : List VersionCall) (call : VersionCall) (later : List VersionCall)
    (isCalls : [timedCall .addVersion firstTime] = earlier ++ call :: later) :
    call.Safe .sample (lastRuntime .sample earlier) (runCalls .sample earlier) ∧
      call.PayloadFits (runCalls .sample earlier) := by
  cases earlier with
  | cons first rest =>
    have short := congrArg List.length isCalls
    simp at short
  | nil =>
    cases isCalls
    refine ⟨⟨first_info_fits, fun _ => by decide, fun other => absurd rfl other,
      fun entry member => by cases member⟩, ?_, ?_⟩
    · exact fun data given => by cases given
    · intro _ count isCount
      cases isCount
      decide

/-- A stored object carries its id, so no next call tells the reloaded value from it. -/
theorem stored_object_reload_transparent :
    (runCalls .sample [timedCall .addVersion firstTime]).Spelled ∧
      ∀ next, (runCalls .sample [timedCall .addVersion firstTime]).Transparent .sample next := by
  have short : (runCalls .sample [timedCall .addVersion firstTime]).metaBlock.length < 2 ^ 32 := by
    decide +kernel
  have spelled : (runCalls .sample [timedCall .addVersion firstTime]).Spelled := by
    unfold FileMeta.Spelled
    decide +kernel
  exact ⟨spelled, (reload_transparent_iff .sample _ first_call_safe short).2.2 spelled⟩

def nullRun : List VersionCall :=
  [⟨.addVersion, { timedInfo firstTime with versionId := none }, Runtime.sample.now, .sorted⟩,
    ⟨.updateObjectVersion, { timedInfo firstTime with versionId := none }, Runtime.sample.now, .sorted⟩]

/-- After an update the null version is found only in the reloaded value. -/
theorem updated_null_version_is_missed :
    ¬ ∀ (env : Runtime) (calls : List VersionCall) (next : VersionCall),
      (runCalls env calls).Transparent env next := by
  intro claim
  obtain ⟨loaded, isLoaded, sameResult, _⟩ := claim .sample nullRun (nullDelete .sample)
  have missed : ((nullDelete .sample).perform .sample (runCalls .sample nullRun)).1.isOk = false := by
    decide +kernel
  have found : (((runCalls .sample nullRun).reload .sample).toOption.any fun loaded =>
      ((nullDelete .sample).perform .sample loaded).1.isOk) = true := by
    decide +kernel
  rw [isLoaded] at found
  rw [sameResult] at missed
  have isOk : ((nullDelete .sample).perform .sample loaded).1.isOk = true := found
  rw [isOk] at missed
  cases missed

end Rustfs.Filemeta
