import HybridLog.Js.Text

/-!
# POSIX paths

The functions of the module `path` for paths with `/`. A path is walked segment by segment: an empty
segment and `.` stay where they are, `..` goes back a step, and what is above the root is the root
itself unless the path is relative.
-/

namespace Js

/-- `/` -/
def slash : UInt16 := 0x2f

/-- `.` -/
def dot : UInt16 := 0x2e

/-- `path.isAbsolute` -/
def isAbsolute (p : JsString) : Bool := p.head? = some slash

/-! ### The functions -/

/-- A step of `normalizeString`; the segments so far, the last one first. -/
def pushSegment (allowAboveRoot : Bool) (segs : List JsString) (seg : JsString) : List JsString :=
  if seg = [] ∨ seg = [dot] then segs
  else if seg = [dot, dot] then
    match segs with
    | [] => if allowAboveRoot then [seg] else []
    | last :: rest =>
      if last ≠ [dot, dot] then rest else if allowAboveRoot then seg :: segs else segs
  else seg :: segs

/-- Where a walk that has come to `segs` goes with more segments. -/
def walk (allowAboveRoot : Bool) (segs : List JsString) (more : List JsString) : List JsString :=
  more.foldl (pushSegment allowAboveRoot) segs

def normalizeString (p : JsString) (allowAboveRoot : Bool) : JsString :=
  [slash].intercalate (walk allowAboveRoot [] (p.splitOn slash)).reverse

/-- `path.normalize` -/
def normalize (p : JsString) : JsString :=
  if p = [] then [dot]
  else
    let absolute := isAbsolute p
    let trailingSeparator := p.getLast? = some slash
    let normal := normalizeString p (!absolute)
    if normal = [] then
      if absolute then [slash] else if trailingSeparator then [dot, slash] else [dot]
    else
      let normal := if trailingSeparator then normal ++ [slash] else normal
      if absolute then slash :: normal else normal

/-- `path.join` -/
def joinPaths (ps : List JsString) : JsString :=
  match ps.filter (· ≠ []) with
  | [] => [dot]
  | ps => normalize ([slash].intercalate ps)

/-- The loop of `path.resolve`, which goes from the last path to the first: what it resolves, and
whether that is absolute. -/
def resolveFrom : List JsString → JsString → JsString × Bool
  | [], resolved => (resolved, false)
  | p :: ps, resolved =>
    if p = [] then resolveFrom ps resolved
    else if isAbsolute p then (p ++ slash :: resolved, true)
    else resolveFrom ps (p ++ slash :: resolved)

/-- `path.resolve`, with the working directory in front. -/
def resolvePath (cwd : JsString) (ps : List JsString) : JsString :=
  let resolved := resolveFrom (ps.reverse ++ [cwd]) []
  let normal := normalizeString resolved.1 (!resolved.2)
  if resolved.2 then slash :: normal else if normal = [] then [dot] else normal

/-- `path.basename` -/
def basename (p : JsString) : JsString :=
  ((p.reverse.dropWhile (· = slash)).takeWhile (· ≠ slash)).reverse

/-! ### Segments -/

/-- Where an absolute path leads, from the root on. -/
def segments (p : JsString) : List JsString := (walk false [] (p.splitOn slash)).reverse

/-- A segment that leads a step further. -/
structure PlainSegment (seg : JsString) : Prop where
  nonempty : seg ≠ []
  not_dot : seg ≠ [dot]
  not_back : seg ≠ [dot, dot]
  flat : slash ∉ seg

/-- The absolute path with the given segments. -/
def absolutePath (segs : List JsString) : JsString := slash :: [slash].intercalate segs

/-- A path lies in the directory `dir` or below it. -/
def Inside (dir p : JsString) : Prop := segments dir <+: segments p

lemma flat_of_mem_splitOn {p seg : JsString} (h : seg ∈ p.splitOn slash) : slash ∉ seg := by
  induction p generalizing seg with
  | nil =>
    rw [List.splitOn_nil, List.mem_singleton] at h
    simp [h]
  | cons c p ih =>
    rw [List.splitOn_cons_eq_if_modifyHead] at h
    split at h
    · rcases List.mem_cons.mp h with rfl | h
      · simp
      · exact ih h
    · next hc =>
      cases hsplit : p.splitOn slash with
      | nil => exact absurd hsplit (List.splitOn_ne_nil slash p)
      | cons first rest =>
        rw [hsplit] at h ih
        rcases List.mem_cons.mp h with rfl | h
        · have hfirst := ih (List.mem_cons_self ..)
          have hne : slash ≠ c := fun heq => hc (by simp [heq])
          simp [hfirst, hne]
        · exact ih (List.mem_cons_of_mem _ h)

lemma pushSegment_plain {up : Bool} {segs : List JsString} {seg : JsString}
    (h : PlainSegment seg) : pushSegment up segs seg = seg :: segs := by
  unfold pushSegment
  rw [if_neg (not_or.mpr ⟨h.nonempty, h.not_dot⟩), if_neg h.not_back]

@[simp] lemma pushSegment_nil {up : Bool} {segs : List JsString} :
    pushSegment up segs [] = segs := if_pos (.inl rfl)

/-- A walk below the root passes plain segments only. -/
lemma plain_walk {segs more : List JsString} (hsegs : ∀ s ∈ segs, PlainSegment s)
    (hmore : ∀ s ∈ more, slash ∉ s) : ∀ s ∈ walk false segs more, PlainSegment s := by
  induction more generalizing segs with
  | nil => exact hsegs
  | cons seg more ih =>
    apply ih _ fun s hs => hmore s (List.mem_cons_of_mem _ hs)
    have hflat := hmore seg (List.mem_cons_self ..)
    intro s hs
    unfold pushSegment at hs
    split at hs
    · exact hsegs s hs
    · next hstay =>
      obtain ⟨hnil, hdot⟩ := not_or.mp hstay
      split at hs
      · cases segs with
        | nil => simp at hs
        | cons last rest =>
          simp only [Bool.false_eq_true, if_false] at hs
          split at hs
          · exact hsegs s (List.mem_cons_of_mem _ hs)
          · exact hsegs s hs
      · next hback =>
        rcases List.mem_cons.mp hs with rfl | hs
        · exact ⟨hnil, hdot, hback, hflat⟩
        · exact hsegs s hs

lemma walk_plain {up : Bool} {segs more : List JsString} (h : ∀ s ∈ more, PlainSegment s) :
    walk up segs more = more.reverse ++ segs := by
  induction more generalizing segs with
  | nil => rfl
  | cons seg more ih =>
    have hrest : walk up (seg :: segs) more = more.reverse ++ seg :: segs :=
      ih fun s hs => h s (List.mem_cons_of_mem _ hs)
    rw [walk, List.foldl_cons, pushSegment_plain (h seg (List.mem_cons_self ..))]
    rw [walk] at hrest
    rw [hrest, List.reverse_cons, List.append_assoc, List.singleton_append]

lemma walk_append (up : Bool) (segs more more' : List JsString) :
    walk up segs (more ++ more') = walk up (walk up segs more) more' := List.foldl_append

lemma plain_segments {p s : JsString} (h : s ∈ segments p) : PlainSegment s := by
  have hnil : ∀ s ∈ ([] : List JsString), PlainSegment s := by simp
  exact plain_walk hnil (fun _ => flat_of_mem_splitOn) s (List.mem_reverse.mp h)

/-! ### Absolute paths -/

lemma splitOn_absolutePath {segs : List JsString} (h : ∀ s ∈ segs, PlainSegment s) :
    (absolutePath segs).splitOn slash = [] :: if segs = [] then [[]] else segs := by
  have hcons : (absolutePath segs).splitOn slash =
      [] :: ([slash].intercalate segs).splitOn slash := by
    rw [absolutePath, List.splitOn_cons_eq_if_modifyHead]
    simp
  rw [hcons]
  split
  · next hnil => simp [hnil]
  · next hne => rw [List.splitOn_intercalate slash (fun s hs => (h s hs).flat) hne]

/-- From an absolute path on, a walk continues from the segments of that path. -/
lemma walk_absolutePath {segs : List JsString} (h : ∀ s ∈ segs, PlainSegment s) :
    walk false [] ((absolutePath segs).splitOn slash) = segs.reverse := by
  rw [splitOn_absolutePath h, walk, List.foldl_cons, pushSegment_nil]
  split
  · next hnil => simp [hnil]
  · exact (walk_plain h).trans (List.append_nil _)

@[simp] lemma segments_absolutePath {segs : List JsString} (h : ∀ s ∈ segs, PlainSegment s) :
    segments (absolutePath segs) = segs := by
  rw [segments, walk_absolutePath h, List.reverse_reverse]

lemma absolutePath_append (segs : List JsString) (last : JsString) :
    ∃ front, ∀ more, absolutePath (segs ++ [last ++ more]) = front ++ slash :: (last ++ more) := by
  induction segs with
  | nil => exact ⟨[], fun more => by simp [absolutePath]⟩
  | cons seg segs ih =>
    obtain ⟨front, hfront⟩ := ih
    refine ⟨slash :: seg ++ front, fun more => ?_⟩
    have hne : segs ++ [last ++ more] ≠ [] := by simp
    obtain ⟨first, rest, hrest⟩ := List.exists_cons_of_ne_nil hne
    have hmore := hfront more
    rw [absolutePath, hrest] at hmore
    rw [absolutePath, List.cons_append, hrest, List.intercalate_cons_cons, List.append_assoc,
      List.singleton_append, hmore, List.cons_append, List.cons_append, List.append_assoc]

/-- The base name is the last segment. -/
lemma basename_absolutePath {segs : List JsString} {last : JsString} (h : PlainSegment last) :
    basename (absolutePath (segs ++ [last])) = last := by
  obtain ⟨front, hfront⟩ := absolutePath_append segs last
  have heq := hfront []
  rw [List.append_nil] at heq
  have hunits : ∀ c ∈ last.reverse, (decide (c ≠ slash)) = true := by
    intro c hc
    rw [List.mem_reverse] at hc
    rw [decide_eq_true_eq]
    exact fun heq => h.flat (heq ▸ hc)
  have hdrop : (last.reverse ++ slash :: front.reverse).dropWhile (· = slash) =
      last.reverse ++ slash :: front.reverse := by
    cases hlast : last.reverse with
    | nil => exact absurd (List.reverse_eq_nil_iff.mp hlast) h.nonempty
    | cons c rest =>
      have hc := hunits c (by simp [hlast])
      rw [List.cons_append, List.dropWhile_cons_of_neg]
      simpa using hc
  rw [basename, heq, List.reverse_append, List.reverse_cons, List.append_assoc,
    List.singleton_append, hdrop, List.takeWhile_append_of_pos hunits, List.takeWhile_cons_of_neg,
    List.append_nil, List.reverse_reverse]
  simp

/-! ### Resolving and joining -/

/-- What has been resolved so far stands at the end. -/
lemma resolveFrom_append (ps : List JsString) (resolved : JsString) :
    resolveFrom ps resolved = ((resolveFrom ps []).1 ++ resolved, (resolveFrom ps []).2) := by
  induction ps generalizing resolved with
  | nil => rfl
  | cons p ps ih =>
    rw [resolveFrom, resolveFrom]
    split
    · exact ih resolved
    · split
      · simp
      · rw [ih (p ++ slash :: resolved), ih (p ++ [slash])]
        simp

/-- With an absolute working directory the path resolved is absolute, and ends with a separator. -/
lemma resolveFrom_absolute {cwd : JsString} (hcwd : isAbsolute cwd = true) (ps : List JsString) :
    (resolveFrom (ps ++ [cwd]) []).2 = true ∧
      ∃ front, (resolveFrom (ps ++ [cwd]) []).1 = front ++ [slash] := by
  induction ps with
  | nil =>
    have hne : cwd ≠ [] := by
      rintro rfl
      cases hcwd
    rw [List.nil_append, resolveFrom, if_neg hne, if_pos hcwd]
    exact ⟨rfl, cwd, rfl⟩
  | cons p ps ih =>
    rw [List.cons_append, resolveFrom]
    split
    · exact ih
    · split
      · exact ⟨rfl, p, rfl⟩
      · obtain ⟨habs, front, hfront⟩ := ih
        rw [resolveFrom_append]
        exact ⟨habs, (resolveFrom (ps ++ [cwd]) []).1 ++ p, by simp⟩

section Resolve

variable {cwd : JsString} {ps : List JsString}

lemma resolvePath_eq (hcwd : isAbsolute cwd = true) : resolvePath cwd ps =
    absolutePath (segments (resolveFrom (ps.reverse ++ [cwd]) []).1) := by
  obtain ⟨habs, -⟩ := resolveFrom_absolute hcwd ps.reverse
  simp only [resolvePath, habs, if_true]
  rfl

lemma segments_resolvePath (hcwd : isAbsolute cwd = true) : segments (resolvePath cwd ps) =
    segments (resolveFrom (ps.reverse ++ [cwd]) []).1 := by
  rw [resolvePath_eq hcwd, segments_absolutePath fun _ => plain_segments]

lemma absolutePath_segments_resolvePath (hcwd : isAbsolute cwd = true) :
    absolutePath (segments (resolvePath cwd ps)) = resolvePath cwd ps := by
  rw [segments_resolvePath hcwd, resolvePath_eq hcwd]

/-- A relative path is resolved from where the paths before it lead. -/
lemma resolvePath_snoc (hcwd : isAbsolute cwd = true) {p : JsString}
    (hp : isAbsolute p = false) : resolvePath cwd (ps ++ [p]) = absolutePath
      (walk false (segments (resolvePath cwd ps)).reverse (p.splitOn slash)).reverse := by
  obtain ⟨-, front, hfront⟩ := resolveFrom_absolute hcwd ps.reverse
  have hsep {q : JsString} : (q ++ [slash]).splitOn slash = q.splitOn slash ++ [[]] := by
    rw [List.splitOn_append_cons_self, List.splitOn_nil]
  have hnil {segs : List JsString} : walk false segs [[]] = segs := by
    rw [walk, List.foldl_cons, pushSegment_nil, List.foldl_nil]
  rw [resolvePath_eq hcwd, segments_resolvePath hcwd, hfront, List.reverse_append,
    List.reverse_singleton, List.singleton_append, List.cons_append, resolveFrom]
  congr 1
  simp only [segments, hsep, walk_append, hnil, List.reverse_reverse]
  split
  · next hempty => rw [hempty, List.splitOn_nil, hnil, hfront, hsep, walk_append, hnil]
  · rw [if_neg (by simp [hp]), resolveFrom_append, hfront, List.append_assoc,
      List.singleton_append, List.splitOn_append_cons_self, hsep, walk_append, walk_append, hnil]

/-- `path.join` goes on from an absolute path. -/
lemma joinPaths_absolute {segs : List JsString} (h : ∀ s ∈ segs, PlainSegment s) {p : JsString}
    (hp : p ≠ []) (hlast : p.getLast? ≠ some slash) : joinPaths [absolutePath segs, p] =
      absolutePath (walk false segs.reverse (p.splitOn slash)).reverse := by
  have habs : absolutePath segs ≠ [] := List.cons_ne_nil _ _
  have hjoined : [slash].intercalate [absolutePath segs, p] = absolutePath segs ++ slash :: p := by
    simp
  have hend : (absolutePath segs ++ slash :: p).getLast? ≠ some slash := by
    obtain ⟨front, c, rfl⟩ := List.eq_nil_or_concat p |>.resolve_left hp
    rw [List.concat_eq_append] at hlast ⊢
    rw [← List.cons_append, ← List.append_assoc, List.getLast?_concat]
    rwa [List.getLast?_concat] at hlast
  have hnormal : normalizeString (absolutePath segs ++ slash :: p) false =
      [slash].intercalate (walk false segs.reverse (p.splitOn slash)).reverse := by
    rw [normalizeString, List.splitOn_append_cons_self, walk_append, walk_absolutePath h]
  have hne : absolutePath segs ++ slash :: p ≠ [] := by simp
  have hisAbs : isAbsolute (absolutePath segs ++ slash :: p) = true := rfl
  have hfilter : [absolutePath segs, p].filter (· ≠ []) = [absolutePath segs, p] := by
    simp [habs, hp]
  rw [joinPaths, hfilter]
  simp only [hjoined, normalize, hne, if_false, hisAbs, Bool.not_true, hnormal, hend, if_true]
  rw [absolutePath]
  split
  · next hnil => rw [hnil]
  · rfl

end Resolve

/-! ### More text at the end of a path -/

/-- A text without separators is added to the last segment. -/
lemma splitOn_append_flat {segs : List JsString} {last p more : JsString}
    (hp : p.splitOn slash = segs ++ [last]) (hmore : slash ∉ more) :
    (p ++ more).splitOn slash = segs ++ [last ++ more] := by
  have hflat : ∀ s ∈ segs ++ [last ++ more], slash ∉ s := by
    intro s hs
    rcases List.mem_append.mp hs with hs | hs
    · exact flat_of_mem_splitOn (hp ▸ List.mem_append_left _ hs)
    · rw [List.mem_singleton.mp hs, List.mem_append, not_or]
      exact ⟨flat_of_mem_splitOn (hp ▸ List.mem_append_right _ (List.mem_singleton_self _)), hmore⟩
  have hp' : p = [slash].intercalate (segs ++ [last]) := by rw [← hp, List.intercalate_splitOn]
  have hjoin : p ++ more = [slash].intercalate (segs ++ [last ++ more]) := by
    obtain ⟨front, hfront⟩ := absolutePath_append segs last
    have hlast := hfront []
    have hlong := hfront more
    rw [List.append_nil, absolutePath, ← hp'] at hlast
    rw [absolutePath] at hlong
    apply List.cons_injective (a := slash)
    rw [hlong, ← List.cons_append, hlast]
    simp
  rw [hjoin, List.splitOn_intercalate slash hflat (by simp)]

end Js
