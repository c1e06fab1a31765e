import HybridLog.Js.Date
import HybridLog.Js.Path

/-!
# The files of an experiment

The results of a suite are written to the export directory under the label of the suite and the
time, and the download route serves what lies in that directory under a flat name. The label is used
as a path, so its segments may lead elsewhere.
-/

namespace HybridLog

open Js

/-- Where a server runs, and what it is configured to export to. -/
structure ExportPlace where
  cwd : JsString
  exportDir : JsString
  /-- `process.cwd()` is an absolute path. -/
  absolute : isAbsolute cwd = true

/-- `path.resolve(process.cwd(), exportDir)` -/
def ExportPlace.dir (place : ExportPlace) : JsString := resolvePath place.cwd [place.exportDir]

/-! ### `exportResults` -/

/-- What the file system does: whether `mkdirSync` and the `writeFileSync` of a path succeed. -/
structure Files where
  mkdir : Bool
  takes : JsString → Bool

/-- The files written, and the paths returned unless an exception is thrown. -/
structure Export where
  written : List JsString
  paths : Option (JsString × JsString)

/-- `new Date().toISOString().replace(/[:.]/g, '-')` -/
def stamp (d : JsDate) : JsString :=
  d.toISOString.map fun c => if c = 0x3a ∨ c = dot then 0x2d else c

def jsonExt : JsString := ofString ".json"

def csvExt : JsString := ofString ".csv"

section Export

variable {ρ : Type} (place : ExportPlace) (files : Files) (results : List ρ) (label : JsString)
  (d : JsDate)

def exportBase : JsString := joinPaths [place.dir, label ++ 0x5f :: stamp d]

/-- The table is written only if there are results. -/
def exportResults : Export :=
  let jsonPath := exportBase place label d ++ jsonExt
  let csvPath := exportBase place label d ++ csvExt
  if files.mkdir && files.takes jsonPath then
    match results with
    | [] => ⟨[jsonPath], some (jsonPath, csvPath)⟩
    | _ :: _ =>
      if files.takes csvPath then ⟨[jsonPath, csvPath], some (jsonPath, csvPath)⟩
      else ⟨[jsonPath], none⟩
  else ⟨[], none⟩

end Export

/-! ### `GET /experiment/download/:filename` -/

inductive Download
  | invalidFilename
  | notFound
  /-- `res.download(path)` -/
  | file (path : JsString)
deriving DecidableEq

def download (place : ExportPlace) (fileExists : JsString → Bool) (filename : JsString) :
    Download :=
  if slash ∈ filename ∨ 0x5c ∈ filename ∨ [dot, dot] <:+: filename then .invalidFilename
  else
    let filePath := resolvePath place.cwd [place.exportDir, filename]
    if fileExists filePath then .file filePath else .notFound

/-- A file is served. Express sends the files whose paths are in `sends`; it keeps back those whose
names begin with a dot. -/
structure Serves (place : ExportPlace) (fileExists sends : JsString → Bool)
    (filename path : JsString) : Prop where
  file : download place fileExists filename = .file path
  sent : sends path = true

/-- Whatever the file system does, what is written and what is served lies in the export directory,
and what is written is served under the name recorded for it. -/
structure KeptInExportDir {ρ : Type} (place : ExportPlace) (sends : JsString → Bool)
    (results : List ρ) (label : JsString) (d : JsDate) : Prop where
  written : ∀ files, ∀ p ∈ (exportResults place files results label d).written, Inside place.dir p
  served : ∀ fileExists filename p, Serves place fileExists sends filename p → Inside place.dir p
  recorded : ∀ files jsonPath csvPath,
    (exportResults place files results label d).paths = some (jsonPath, csvPath) →
    ∀ fileExists : JsString → Bool,
      (∀ p ∈ (exportResults place files results label d).written, fileExists p = true) →
      ∀ p ∈ (exportResults place files results label d).written,
        p = jsonPath ∧ Serves place fileExists sends (basename jsonPath) p ∨
          p = csvPath ∧ Serves place fileExists sends (basename csvPath) p

/-! ### Labels -/

/-- What stands in a label before its last separator leads here from the export directory. -/
def labelDir (place : ExportPlace) (label : JsString) : List JsString :=
  (walk false (segments place.dir).reverse (label.splitOn slash).dropLast).reverse

/-- What stands in a label after its last separator. -/
def labelName (label : JsString) : JsString := (label.splitOn slash).getLastD []

/-- The name of a file. -/
def fileName (label : JsString) (d : JsDate) (ext : JsString) : JsString :=
  labelName label ++ 0x5f :: stamp d ++ ext

/-- The file of that name in the export directory. -/
def exportedFile (place : ExportPlace) (label : JsString) (d : JsDate) (ext : JsString) :
    JsString :=
  absolutePath (segments place.dir ++ [fileName label d ext])

lemma splitOn_label (label : JsString) :
    label.splitOn slash = (label.splitOn slash).dropLast ++ [labelName label] := by
  have hne : label.splitOn slash ≠ [] := List.splitOn_ne_nil slash label
  rw [labelName, List.getLastD_eq_getLast?, List.getLast?_eq_some_getLast hne, Option.getD_some,
    List.dropLast_append_getLast hne]

lemma flat_labelName (label : JsString) : slash ∉ labelName label := by
  apply flat_of_mem_splitOn (p := label)
  rw [splitOn_label label]
  exact List.mem_append_right _ (List.mem_singleton_self _)

/-! ### The time -/

/-- The units a text of digits and a few marks may have. -/
def TimeUnit (c : UInt16) : Prop := c ≠ slash ∧ c ≠ 0x5c

instance (c : UInt16) : Decidable (TimeUnit c) := inferInstanceAs (Decidable (_ ∧ _))

lemma timeUnit_padDigits (w n : ℕ) : ∀ c ∈ padDigits w n, TimeUnit c := by
  induction w generalizing n with
  | zero => simp [padDigits]
  | succ w ih =>
    intro c hc
    rcases List.mem_append.mp hc with hc | hc
    · exact ih _ c hc
    · rw [List.mem_singleton.mp hc]
      have hdigits : ∀ i : Fin 10, TimeUnit (digitUnit i) := by decide
      exact hdigits _

lemma timeUnit_toISOString (d : JsDate) : ∀ c ∈ d.toISOString, TimeUnit c := by
  have hmarks : TimeUnit 0x2d ∧ TimeUnit 0x2b ∧ TimeUnit 0x54 ∧ TimeUnit 0x3a ∧ TimeUnit 0x2e ∧
      TimeUnit 0x5a := by decide
  obtain ⟨hdash, hplus, ht, hcolon, hdot, hz⟩ := hmarks
  have hyear (y : ℤ) : ∀ c ∈ yearText y, TimeUnit c := by
    rw [yearText]
    split
    · exact timeUnit_padDigits _ _
    · rw [List.forall_mem_cons]
      refine ⟨?_, timeUnit_padDigits _ _⟩
      split
      · exact hdash
      · exact hplus
  have hday (month day ms : ℕ) : ∀ c ∈ dayText month day ms, TimeUnit c := by
    have hpad (w n : ℕ) : (∀ c ∈ padDigits w n, TimeUnit c) = True :=
      eq_true (timeUnit_padDigits w n)
    simp only [dayText, List.forall_mem_append, List.forall_mem_cons, hpad, hdash, ht, hcolon,
      hdot, hz, List.not_mem_nil, false_implies, implies_true, and_self]
  rw [JsDate.toISOString, List.forall_mem_append]
  exact ⟨hyear _, hday _ _ _⟩

/-- The text of a time has neither separators nor dots. -/
lemma mem_stamp {d : JsDate} {c : UInt16} (hc : c ∈ stamp d) :
    c ≠ slash ∧ c ≠ 0x5c ∧ c ≠ dot := by
  obtain ⟨c', hc', rfl⟩ := List.mem_map.mp hc
  split
  · decide
  · next hmark =>
    obtain ⟨hslash, hback⟩ := timeUnit_toISOString d c' hc'
    exact ⟨hslash, hback, fun hdot => hmark (.inr hdot)⟩

/-! ### Two dots -/

/-- Two equal units in a row stand on one side of any other unit. -/
lemma pair_infix_iff {a c : UInt16} (h : c ≠ a) {l r : JsString} :
    [a, a] <:+: l ++ c :: r ↔ [a, a] <:+: l ∨ [a, a] <:+: r := by
  constructor
  · rintro ⟨front, back, heq⟩
    rw [List.append_assoc] at heq
    rcases List.append_eq_append_iff.mp heq with ⟨mid, rfl, hmid⟩ | ⟨mid, rfl, hmid⟩
    · cases mid with
      | nil =>
        simp only [List.cons_append, List.nil_append, List.cons.injEq] at hmid
        exact absurd hmid.1.symm h
      | cons x mid =>
        simp only [List.cons_append, List.nil_append, List.cons.injEq] at hmid
        obtain ⟨rfl, hmid⟩ := hmid
        cases mid with
        | nil =>
          simp only [List.nil_append, List.cons.injEq] at hmid
          exact absurd hmid.1.symm h
        | cons y mid =>
          simp only [List.cons_append, List.cons.injEq] at hmid
          obtain ⟨rfl, hmid⟩ := hmid
          exact .inl ⟨front, mid, by simp⟩
    · cases mid with
      | nil =>
        simp only [List.cons_append, List.nil_append, List.cons.injEq] at hmid
        exact absurd hmid.1 h
      | cons x mid =>
        simp only [List.cons_append, List.cons.injEq] at hmid
        obtain ⟨rfl, rfl⟩ := hmid
        exact .inr ⟨mid, back, by simp⟩
  · rintro (hl | hr)
    · exact hl.trans (List.infix_append [] l (c :: r))
    · exact hr.trans ⟨l ++ [c], [], by simp⟩

/-- The time and an extension have one dot. -/
lemma not_twoDots_tail (d : JsDate) {ext : JsString} (hext : ext.count dot ≤ 1) :
    ¬[dot, dot] <:+: stamp d ++ ext := by
  intro h
  have hnone : (stamp d).count dot = 0 :=
    List.count_eq_zero.mpr fun hmem => (mem_stamp hmem).2.2 rfl
  have hle := h.sublist.count_le dot
  rw [List.count_append, hnone, Nat.zero_add] at hle
  have htwo : [dot, dot].count dot = 2 := by decide
  omega

/-! ### The paths written and served -/

section Paths

variable (place : ExportPlace) (label : JsString) (d : JsDate) {ext : JsString}

lemma absolutePath_dir : absolutePath (segments place.dir) = place.dir :=
  absolutePath_segments_resolvePath place.absolute

lemma plain_fileName (hext : slash ∉ ext) : PlainSegment (fileName label d ext) := by
  have hmark : (0x5f : UInt16) ∈ fileName label d ext := by simp [fileName]
  constructor
  · exact List.ne_nil_of_mem hmark
  · intro heq
    rw [heq] at hmark
    exact absurd hmark (by decide)
  · intro heq
    rw [heq] at hmark
    exact absurd hmark (by decide)
  · simp only [fileName, List.mem_append, List.mem_cons, not_or]
    exact ⟨⟨flat_labelName label, by decide, fun h => (mem_stamp h).1 rfl⟩, hext⟩

lemma plain_labelDir : ∀ s ∈ labelDir place label, PlainSegment s := by
  intro s hs
  apply plain_walk _ _ s (List.mem_reverse.mp hs)
  · exact fun s hs => plain_segments (List.mem_reverse.mp hs)
  · exact fun s hs => flat_of_mem_splitOn (List.mem_of_mem_dropLast hs)

/-- A file is written where the label leads. -/
lemma exportBase_append : exportBase place label d ++ ext =
    absolutePath (labelDir place label ++ [fileName label d ext]) := by
  have hflat : slash ∉ 0x5f :: stamp d := by
    rw [List.mem_cons, not_or]
    exact ⟨by decide, fun h => (mem_stamp h).1 rfl⟩
  have hlast : (label ++ 0x5f :: stamp d).getLast? ≠ some slash := by
    rw [List.getLast?_append_of_ne_nil _ (List.cons_ne_nil _ _)]
    exact fun h => hflat (List.mem_of_getLast? h)
  have hsplit := splitOn_append_flat (splitOn_label label) hflat
  have hplain : PlainSegment (labelName label ++ 0x5f :: stamp d) := by
    have hname : PlainSegment (fileName label d []) := plain_fileName label d (by simp)
    simpa [fileName] using hname
  have hbase : exportBase place label d =
      absolutePath (labelDir place label ++ [labelName label ++ 0x5f :: stamp d]) := by
    rw [exportBase, ← absolutePath_dir,
      joinPaths_absolute (fun _ => plain_segments) (by simp) hlast,
      hsplit, walk_append, walk, List.foldl_cons, List.foldl_nil,
      pushSegment_plain hplain, List.reverse_cons, labelDir]
  obtain ⟨front, hfront⟩ := absolutePath_append (labelDir place label)
    (labelName label ++ 0x5f :: stamp d)
  have hshort := hfront []
  rw [List.append_nil] at hshort
  rw [hbase, hshort, fileName, hfront ext]
  simp

lemma segments_exportBase (hext : slash ∉ ext) : segments (exportBase place label d ++ ext) =
    labelDir place label ++ [fileName label d ext] := by
  rw [exportBase_append place label d, segments_absolutePath]
  intro s hs
  rcases List.mem_append.mp hs with hs | hs
  · exact plain_labelDir place label s hs
  · rw [List.mem_singleton.mp hs]
    exact plain_fileName label d hext

lemma basename_exportBase (hext : slash ∉ ext) :
    basename (exportBase place label d ++ ext) = fileName label d ext := by
  rw [exportBase_append place label d, basename_absolutePath (plain_fileName label d hext)]

/-- A flat name is looked up in the export directory. -/
lemma resolve_flat {filename : JsString} (hflat : slash ∉ filename) :
    resolvePath place.cwd [place.exportDir, filename] =
      absolutePath (pushSegment false (segments place.dir).reverse filename).reverse := by
  have hrel : isAbsolute filename = false := by
    rw [isAbsolute, decide_eq_false_iff_not]
    exact fun h => hflat (List.mem_of_mem_head? h)
  have hsnoc := @resolvePath_snoc _ [place.exportDir] place.absolute _ hrel
  rw [List.splitOn_eq_singleton hflat] at hsnoc
  exact hsnoc

lemma resolve_fileName (hext : slash ∉ ext) :
    resolvePath place.cwd [place.exportDir, fileName label d ext] =
      exportedFile place label d ext := by
  have hplain := plain_fileName label d hext
  rw [resolve_flat place hplain.flat, pushSegment_plain hplain, List.reverse_cons,
    List.reverse_reverse, exportedFile]

/-- Every file that is served lies in the export directory. -/
lemma inside_of_serves {fileExists sends : JsString → Bool} {filename p : JsString}
    (h : Serves place fileExists sends filename p) : Inside place.dir p := by
  have hfile := h.file
  rw [download] at hfile
  split at hfile
  · cases hfile
  · next hflat =>
    rw [not_or, not_or] at hflat
    obtain ⟨hslash, -, hdots⟩ := hflat
    have hback : filename ≠ [dot, dot] := fun heq => hdots (heq ▸ List.infix_rfl)
    dsimp only at hfile
    split at hfile
    · cases hfile
      have hplain : ∀ s ∈ pushSegment false (segments place.dir).reverse filename,
          PlainSegment s := by
        have hflats : ∀ s ∈ [filename], slash ∉ s := by simpa using hslash
        exact plain_walk (fun s hs => plain_segments (List.mem_reverse.mp hs)) hflats
      rw [Inside, resolve_flat place hslash,
        segments_absolutePath fun s hs => hplain s (List.mem_reverse.mp hs)]
      unfold pushSegment
      split
      · rw [List.reverse_reverse]
      · rw [List.reverse_cons, List.reverse_reverse]
        exact List.prefix_append _ _
    · cases hfile

/-- The name of a file has two dots in a row if the name in the label has. -/
lemma twoDots_fileName (hext : ext.count dot ≤ 1) :
    [dot, dot] <:+: fileName label d ext ↔ [dot, dot] <:+: labelName label := by
  have hmark : (0x5f : UInt16) ≠ dot := by decide
  rw [fileName, List.append_assoc, List.cons_append, pair_infix_iff hmark]
  exact or_iff_left (not_twoDots_tail d hext)

/-- A file of an export is served under its name exactly if it is the file of that name in the
export directory and Express sends it. -/
lemma serves_iff {fileExists sends : JsString → Bool} (hext : slash ∉ ext) (hback : 0x5c ∉ ext)
    (hdots : ext.count dot ≤ 1) (hexists : fileExists (exportBase place label d ++ ext) = true) :
    Serves place fileExists sends (fileName label d ext) (exportBase place label d ++ ext) ↔
      labelDir place label = segments place.dir ∧ 0x5c ∉ labelName label ∧
        ¬[dot, dot] <:+: labelName label ∧ sends (exportedFile place label d ext) = true := by
  have hplain := plain_fileName label d hext
  have hunit : 0x5c ∈ fileName label d ext ↔ 0x5c ∈ labelName label := by
    have hstamp : (0x5c : UInt16) ∉ stamp d := fun h => (mem_stamp h).2.1 rfl
    simp [fileName, hstamp, hback]
  have hdownload : download place fileExists (fileName label d ext) =
      if 0x5c ∈ labelName label ∨ [dot, dot] <:+: labelName label then .invalidFilename
      else if fileExists (exportedFile place label d ext) then
        .file (exportedFile place label d ext)
      else .notFound := by
    simp only [download, resolve_fileName place label d hext, hplain.flat, false_or, hunit,
      twoDots_fileName label d hdots]
  have hsame : exportBase place label d ++ ext = exportedFile place label d ext ↔
      labelDir place label = segments place.dir := by
    constructor
    · intro heq
      have hsegs := segments_exportBase place label d hext
      rw [heq, exportedFile, segments_absolutePath] at hsegs
      · exact (List.append_inj' hsegs rfl).1.symm
      · intro s hs
        rcases List.mem_append.mp hs with hs | hs
        · exact plain_segments hs
        · exact List.mem_singleton.mp hs ▸ hplain
    · intro heq
      rw [exportBase_append place label d, heq, exportedFile]
  constructor
  · rintro ⟨hfile, hsent⟩
    rw [hdownload] at hfile
    split at hfile
    · cases hfile
    · next hflat =>
      rw [not_or] at hflat
      split at hfile
      · have heq := (Download.file.inj hfile).symm
        exact ⟨hsame.mp heq, hflat.1, hflat.2, heq ▸ hsent⟩
      · cases hfile
  · rintro ⟨hdir, hnot, hnone, hsent⟩
    have heq := hsame.mpr hdir
    rw [heq] at hexists ⊢
    refine ⟨?_, hsent⟩
    rw [hdownload, if_neg (not_or.mpr ⟨hnot, hnone⟩), if_pos hexists]

/-! ### Which labels stay -/

variable {ρ : Type} (results : List ρ) (sends : JsString → Bool)

lemma mem_written {files : Files} {p : JsString}
    (h : p ∈ (exportResults place files results label d).written) :
    p = exportBase place label d ++ jsonExt ∨
      p = exportBase place label d ++ csvExt ∧ results ≠ [] := by
  simp only [exportResults] at h
  split at h
  · cases results with
    | nil => exact .inl (List.mem_singleton.mp h)
    | cons r results =>
      dsimp only at h
      split at h
      · rcases List.mem_cons.mp h with rfl | h
        · exact .inl rfl
        · exact .inr ⟨List.mem_singleton.mp h, List.cons_ne_nil _ _⟩
      · exact .inl (List.mem_singleton.mp h)
  · cases h

lemma paths_eq {files : Files} {jsonPath csvPath : JsString}
    (h : (exportResults place files results label d).paths = some (jsonPath, csvPath)) :
    jsonPath = exportBase place label d ++ jsonExt ∧
      csvPath = exportBase place label d ++ csvExt := by
  simp only [exportResults] at h
  split at h
  · cases results with
    | nil =>
      cases h
      exact ⟨rfl, rfl⟩
    | cons r results =>
      dsimp only at h
      split at h
      · cases h
        exact ⟨rfl, rfl⟩
      · cases h
  · cases h

/-- A file system that takes every file. -/
def openFiles : Files := ⟨true, fun _ => true⟩

lemma exportResults_openFiles : exportResults place openFiles results label d =
    ⟨(exportBase place label d ++ jsonExt) ::
        if results = [] then [] else [exportBase place label d ++ csvExt],
      some (exportBase place label d ++ jsonExt, exportBase place label d ++ csvExt)⟩ := by
  cases results with
  | nil => rfl
  | cons r results => rfl

lemma ext_facts : (slash ∉ jsonExt ∧ 0x5c ∉ jsonExt ∧ jsonExt.count dot ≤ 1) ∧
    slash ∉ csvExt ∧ 0x5c ∉ csvExt ∧ csvExt.count dot ≤ 1 := by decide

/-- If the files under a label are kept, they are kept in the export directory itself. -/
lemma serves_of_kept (h : KeptInExportDir place sends results label d) :
    (labelDir place label = segments place.dir ∧ 0x5c ∉ labelName label ∧
        ¬[dot, dot] <:+: labelName label ∧ sends (exportedFile place label d jsonExt) = true) ∧
      (results ≠ [] → sends (exportedFile place label d csvExt) = true) := by
  obtain ⟨⟨hslash, hback, hdots⟩, hslash', hback', hdots'⟩ := ext_facts
  have hexport := exportResults_openFiles place label d results
  have hserves := h.recorded openFiles _ _ (by rw [hexport]) (fun _ => true) fun _ _ => rfl
  have hne : exportBase place label d ++ jsonExt ≠ exportBase place label d ++ csvExt := by
    intro heq
    exact absurd (List.append_cancel_left heq) (by decide)
  rw [hexport] at hserves
  constructor
  · rcases hserves _ (List.mem_cons_self ..) with ⟨-, hjson⟩ | ⟨heq, -⟩
    · rw [basename_exportBase place label d hslash] at hjson
      exact (serves_iff place label d hslash hback hdots rfl).mp hjson
    · exact absurd heq hne
  · intro hresults
    rcases hserves (exportBase place label d ++ csvExt) (by simp [hresults]) with
      ⟨heq, -⟩ | ⟨-, hcsv⟩
    · exact absurd heq hne.symm
    · rw [basename_exportBase place label d hslash'] at hcsv
      exact ((serves_iff place label d hslash' hback' hdots' rfl).mp hcsv).2.2.2

/-- The files of an experiment are kept in the export directory and served under their names exactly
if the label leads to that directory itself before its last separator, has neither a backslash nor
two dots in a row after it, and makes no name that Express keeps back. -/
theorem experiment_files_kept_iff : KeptInExportDir place sends results label d ↔
    labelDir place label = segments place.dir ∧ 0x5c ∉ labelName label ∧
      ¬[dot, dot] <:+: labelName label ∧ sends (exportedFile place label d jsonExt) = true ∧
      (results ≠ [] → sends (exportedFile place label d csvExt) = true) := by
  obtain ⟨⟨hslash, hback, hdots⟩, hslash', hback', hdots'⟩ := ext_facts
  constructor
  · intro h
    obtain ⟨⟨hdir, hnot, hnone, hjson⟩, hcsv⟩ := serves_of_kept place label d results sends h
    exact ⟨hdir, hnot, hnone, hjson, hcsv⟩
  · rintro ⟨hdir, hnot, hnone, hjson, hcsv⟩
    constructor
    · intro files p hp
      have hinside (ext : JsString) (hext : slash ∉ ext) :
          Inside place.dir (exportBase place label d ++ ext) := by
        rw [Inside, segments_exportBase place label d hext, hdir]
        exact List.prefix_append _ _
      rcases mem_written place label d results hp with rfl | ⟨rfl, -⟩
      · exact hinside jsonExt hslash
      · exact hinside csvExt hslash'
    · exact fun fileExists filename p h => inside_of_serves place h
    · intro files jsonPath csvPath hpaths fileExists hexists p hp
      obtain ⟨rfl, rfl⟩ := paths_eq place label d results hpaths
      have hthere := hexists p hp
      rcases mem_written place label d results hp with rfl | ⟨rfl, hresults⟩
      · refine .inl ⟨rfl, ?_⟩
        rw [basename_exportBase place label d hslash]
        exact (serves_iff place label d hslash hback hdots hthere).mpr ⟨hdir, hnot, hnone, hjson⟩
      · refine .inr ⟨rfl, ?_⟩
        rw [basename_exportBase place label d hslash']
        exact (serves_iff place label d hslash' hback' hdots' hthere).mpr
          ⟨hdir, hnot, hnone, hcsv hresults⟩

end Paths

/-- A server in `/app` that exports to `./results`. -/
def appPlace : ExportPlace := ⟨ofString "/app", ofString "./results", by decide⟩

lemma segments_appPlace : segments appPlace.dir = [ofString "app", ofString "results"] := by
  decide +kernel

lemma labelDir_parent : labelDir appPlace (ofString "../x") = [ofString "app"] := by
  rw [labelDir, segments_appPlace]
  decide +kernel

/-- Segments that cancel each other do no harm. -/
example : labelDir appPlace (ofString "runs/../x") = segments appPlace.dir := by
  rw [labelDir, segments_appPlace]
  decide +kernel

/-- A label that goes back a step has its file written beside the export directory. -/
theorem parent_label_escapes : ¬KeptInExportDir appPlace (fun _ => true) [()] (ofString "../x")
    .epoch := by
  intro h
  have hwritten := h.written openFiles (exportBase appPlace (ofString "../x") .epoch ++ jsonExt)
  rw [exportResults_openFiles] at hwritten
  have hinside := hwritten (List.mem_cons_self ..)
  rw [Inside, segments_exportBase _ _ _ (by decide), segments_appPlace, labelDir_parent] at hinside
  exact absurd hinside (by decide)

end HybridLog
