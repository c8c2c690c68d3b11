import Readback.Files.Document
import Readback.Proofs.Extent
import Readback.Proofs.Files.Tree
import Readback.Proofs.Json.Document

namespace Readback

namespace Path

theorem read_name {name : String} (hsplit : name.splitOn "/" = [name])
    (hplain : '\x00' ∉ name.toList) (hne : name ≠ "") (hshort : ¬ limit ≤ name.utf8ByteSize)
    (hstart : name.startsWith "/" = false) (hend : name.endsWith "/" = false) :
    read name = .ok ⟨false, [name], false⟩ := by
  rw [read, if_neg hplain, if_neg hne, if_neg hshort, hsplit, hstart, hend,
    List.filter_singleton, decide_eq_true hne, cond_true]

theorem parent_name {name : String} (hsplit : name.splitOn "/" = [name]) (hne : name ≠ "")
    (hdot : name ≠ ".") (hstart : name.startsWith "/" = false) : parent name = "." := by
  have hname : trimmed [name] = [name] := by simp [trimmed, hne, hdot]
  have hnone : trimmed [] = [] := rfl
  simp [parent, hsplit, hname, hnone, hstart]

end Path

namespace Files

variable {f g : Files} {path : String} {p : Path} {content : Extent} {clobber : Bool}
  {dir place target : List String} {names : List (String × FileTree)} {name : String}

/-- How a file gets its name: in a directory that is there, in the place of another file or of
nothing. -/
structure Stored (f : Files) (path : String) (content : Extent) (g : Files) (p : Path)
    (dir : List String) (name : String) : Prop where
  read : Path.read path = .ok p
  walk : f.root.walk (f.origin p) p.parts.dropLast = .ok dir
  directory : ∃ names, f.root.find dir = some (.directory names)
  last : p.parts.getLast? = some name
  noDots : name ≠ "." ∧ name ≠ ".."
  short : ¬ Path.maxName < name.utf8ByteSize
  isOpen : p.closed = false
  place : f.root.sort (dir ++ [name]) ≠ some none
  files : g = f.put (dir ++ [name]) (.file content)

theorem newPlace_ok (h : f.newPlace clobber p = .ok place) :
    ∃ dir names name, f.root.walk (f.origin p) p.parts.dropLast = .ok dir ∧
      f.root.contents dir = .ok names ∧ p.parts.getLast? = some name ∧
      (name ≠ "." ∧ name ≠ "..") ∧ ¬ Path.maxName < name.utf8ByteSize ∧ p.closed = false ∧
      (∀ inner, names.lookup name ≠ some (.directory inner)) ∧ place = dir ++ [name] := by
  obtain ⟨dir, hdir, h⟩ := bind_eq_ok h
  obtain ⟨names, hnames, h⟩ := bind_eq_ok h
  cases hname : p.name? with
  | none =>
    rw [hname] at h
    cases h
  | some name =>
    obtain ⟨hlast, hdots⟩ := Option.filter_eq_some_iff.mp hname
    rw [hname] at h
    simp only [bind, Except.bind, throw, throwThe, MonadExceptOf.throw, pure, Except.pure] at h
    split at h
    · cases h
    split at h
    · cases h
    split at h
    · cases h
    split at h
    · cases h
    · rename_i hshort _ hclosed _ hold
      cases h
      exact ⟨dir, names, name, hdir, hnames, hlast, of_decide_eq_true hdots, hshort,
        Bool.eq_false_iff.mpr hclosed, hold, rfl⟩

theorem content?_of_locate {place : List String} (hp : Path.read path = .ok p)
    (hl : f.locate p = .ok place) : f.content? path = (f.root.sort place).join := by
  have hplace : f.place path = .ok place := by
    simp only [Files.place, hp, bind, Except.bind, hl, mapError_ok]
  rw [content?, lookup, hplace]
  simp only [bind, Except.bind, FileTree.sort]
  cases hfind : f.root.find place with
  | none => rfl
  | some found => cases found <;> rfl

theorem lookup_of_content? (h : f.content? path = some content) :
    f.lookup path = .ok (.file content) := by
  rw [content?] at h
  split at h
  · cases h
    assumption
  · cases h

theorem content?_of_error {e : Errno} (hp : Path.read path = .ok p) (hl : f.locate p = .error e) :
    f.content? path = none := by
  have hplace : f.place path = .error (.system e) := by
    simp only [Files.place, hp, bind, Except.bind, hl, mapError_error]
  rw [content?, lookup, hplace]
  rfl

theorem content?_of_unreadable {o : Obstacle} (hp : Path.read path = .error o) :
    f.content? path = none := by
  have hplace : f.place path = .error o := by
    simp only [Files.place, hp, bind, Except.bind]
  rw [content?, lookup, hplace]
  rfl

theorem Stored.content? {dir : List String} {name : String}
    (h : f.Stored path content g p dir name) : g.content? path = some content := by
  obtain ⟨names, hdirectory⟩ := h.directory
  have hfind : (f.root.put (dir ++ [name]) (.file content)).find (dir ++ [name]) =
      some (.file content) := FileTree.find_put_self hdirectory
  have hwalk : g.root.walk (g.origin p) p.parts = .ok (dir ++ [name]) := by
    have hparts := List.dropLast_append_getLast? name h.last
    have hdir : g.root.walk (g.origin p) p.parts.dropLast = .ok dir := by
      rw [h.files]
      exact FileTree.walk_put hdirectory h.place h.walk
    have hstep : g.root.step dir name = .ok (dir ++ [name]) := by
      rw [h.files]
      exact FileTree.step_put_self hdirectory h.noDots.1 h.noDots.2 h.short
    rw [FileTree.walk] at hdir
    rw [← hparts, FileTree.walk, List.foldlM_append, hdir]
    simp only [bind, Except.bind, List.foldlM_cons, hstep]
    rfl
  have hlocate : g.locate p = .ok (dir ++ [name]) := by
    simp only [locate, hwalk, bind, Except.bind, h.isOpen]
    rfl
  have hroot : g.root = f.root.put (dir ++ [name]) (.file content) := by rw [h.files]; rfl
  rw [content?_of_locate h.read hlocate, FileTree.sort, hroot, hfind]
  rfl

/-- Where the same is known everywhere, a file gets its name in the same way. -/
theorem Stored.congr {f' : Files} (h : f.Stored path content g p dir name)
    (hhere : f'.here = f.here) (hsort : ∀ q, f'.root.sort q = f.root.sort q) :
    f'.Stored path content (f'.put (dir ++ [name]) (.file content)) p dir name := by
  obtain ⟨names, hnames⟩ := h.directory
  obtain ⟨names', hnames', -⟩ := FileTree.contents_of_sort
    ((hsort dir).trans (FileTree.sort_of_find hnames))
  refine ⟨h.read, ?_, ⟨names', hnames'⟩, h.last, h.noDots, h.short, h.isOpen, ?_, rfl⟩
  · rw [origin, hhere, FileTree.walk_congr hsort]
    exact h.walk
  · rw [hsort]
    exact h.place

theorem locate_of_error {e : Errno} (h : f.root.walk (f.origin p) p.parts = .error e) :
    f.locate p = .error e := by
  simp only [locate, h, bind, Except.bind]

theorem locate_of_walk {r : List String} (h : f.root.walk (f.origin p) p.parts = .ok r) :
    f.locate p = if p.closed then (f.root.contents r).map fun _ => r else .ok r := by
  simp only [locate, h, bind, Except.bind]
  cases p.closed with
  | false => rfl
  | true => cases f.root.contents r <;> rfl

theorem content?_congr {r : List String} (hp : Path.read path = .ok p)
    (hf : f.root.walk (f.origin p) p.parts = .ok r) (hg : g.root.walk (g.origin p) p.parts = .ok r)
    (hsort : g.root.sort r = f.root.sort r) : g.content? path = f.content? path := by
  have hlf := locate_of_walk hf
  have hlg := locate_of_walk hg
  cases hclosed : p.closed with
  | false =>
    rw [hclosed] at hlf hlg
    rw [content?_of_locate hp hlf, content?_of_locate hp hlg, hsort]
  | true =>
    rw [hclosed] at hlf hlg
    cases hc : f.root.contents r with
    | error e =>
      rw [hc] at hlf
      rw [FileTree.contents_congr hsort hc] at hlg
      rw [content?_of_error hp hlf, content?_of_error hp hlg]
    | ok names =>
      obtain ⟨names', -, hc'⟩ := FileTree.contents_of_sort
        (hsort.trans (FileTree.sort_of_find (FileTree.find_of_contents hc)))
      rw [hc] at hlf
      rw [hc'] at hlg
      rw [content?_of_locate hp hlf, content?_of_locate hp hlg, hsort]

/-- A path along which nothing changes leads to what it led to, if that has not changed. -/
theorem content?_of_walk (hp : Path.read path = .ok p)
    (hwalk : g.root.walk (g.origin p) p.parts = f.root.walk (f.origin p) p.parts)
    (hsort : ∀ r, f.root.walk (f.origin p) p.parts = .ok r → g.root.sort r = f.root.sort r) :
    g.content? path = f.content? path := by
  cases hw : f.root.walk (f.origin p) p.parts with
  | error e =>
    rw [hw] at hwalk
    rw [content?_of_error hp (locate_of_error hwalk), content?_of_error hp (locate_of_error hw)]
  | ok r =>
    rw [hw] at hwalk
    exact content?_congr hp hw hwalk (hsort r hw)

theorem content?_put_new (part : Extent) (hdir : f.root.find dir = some (.directory names))
    (hnew : names.lookup name = none) (hp : Path.read path = .ok p)
    (horigin : ¬ dir ++ [name] <+: f.origin p) (hname : p.parts.getLast? ≠ some name) :
    (f.put (dir ++ [name]) (.file part)).content? path = f.content? path := by
  rcases FileTree.walk_put_new hdir part p.parts hnew horigin with
    ⟨hwalk, hr⟩ | ⟨⟨e, he⟩, e', he'⟩ | ⟨-, hlast⟩
  · exact content?_of_walk hp hwalk fun r hw => FileTree.sort_put hdir (hr r hw)
  · rw [content?_of_error hp (locate_of_error he), content?_of_error hp (locate_of_error he')]
  · exact absurd hlast hname

theorem content?_of_sort (hhere : g.here = f.here) (hsort : ∀ q, g.root.sort q = f.root.sort q)
    (path : String) : g.content? path = f.content? path := by
  cases hp : Path.read path with
  | error o => rw [content?_of_unreadable hp, content?_of_unreadable hp]
  | ok p =>
    refine content?_of_walk hp ?_ fun r _ => hsort r
    rw [origin, hhere, FileTree.walk_congr hsort]
    rfl

theorem aside_ok {draws : List String} (h : f.aside path draws = .ok place) :
    ∃ dir names, ∃ name ∈ draws, f.root.find dir = some (.directory names) ∧
      names.lookup name = none ∧ place = dir ++ [name] := by
  simp only [aside] at h
  split at h
  · cases h
  obtain ⟨dir, -, h⟩ := bind_eq_ok h
  obtain ⟨names, hnames, h⟩ := bind_eq_ok h
  split at h
  · rename_i name hfind
    cases h
    have hfree := List.find?_some hfind
    exact ⟨dir, names, name, List.mem_of_find?_eq_some hfind,
      FileTree.find_of_contents (mapError_eq_ok hnames), Option.isNone_iff_eq_none.mp hfree, rfl⟩
  · cases h

theorem changed_append (f : Files) (cs cs' : List Change) :
    f.changed (cs ++ cs') = (f.changed cs).changed cs' :=
  List.foldl_append

theorem write_of_mem_filling {bytes : ByteArray} {sizes : List Nat} {c : Change}
    (h : c ∈ filling place bytes sizes) : ∃ b, c = .write place b := by
  rcases List.mem_append.mp h with hpart | hall
  · obtain ⟨n, -, rfl⟩ := List.mem_map.mp hpart
    exact ⟨_, rfl⟩
  · exact ⟨bytes, List.mem_singleton.mp hall⟩

section Filling

variable (hdir : f.root.find dir = some (.directory names))

include hdir

theorem changed_of_writes {cs : List Change} (h : ∀ c ∈ cs, ∃ b, c = .write (dir ++ [name]) b) :
    f.changed cs = f ∨ ∃ part, f.changed cs = f.put (dir ++ [name]) (.file part) := by
  induction cs using List.reverseRecOn with
  | nil => exact .inl rfl
  | append_singleton cs c ih =>
    obtain ⟨b, rfl⟩ := h c (List.mem_append_right cs (List.mem_singleton_self c))
    rw [changed_append]
    refine .inr ⟨.ofBytes b, ?_⟩
    rcases ih fun c hc => h c (List.mem_append_left _ hc) with hsame | ⟨part, hpart⟩
    · rw [hsame]
      rfl
    · rw [hpart]
      exact congrArg (Files.mk · f.here) (FileTree.put_put hdir (.file part))

theorem changed_filling (bytes : ByteArray) (sizes : List Nat) :
    f.changed (filling (dir ++ [name]) bytes sizes) =
      f.put (dir ++ [name]) (.file (.ofBytes bytes)) := by
  rw [filling, changed_append]
  have hwrites : ∀ c ∈ (0 :: sizes).map fun n => Change.write (dir ++ [name]) (bytes.extract 0 n),
      ∃ b, c = .write (dir ++ [name]) b :=
    fun c hc => write_of_mem_filling (List.mem_append_left _ hc)
  rcases changed_of_writes hdir hwrites with hsame | ⟨part, hpart⟩
  · rw [hsame]
    rfl
  · rw [hpart]
    exact congrArg (Files.mk · f.here) (FileTree.put_put hdir (.file part))

variable (hnew : names.lookup name = none)

include hnew

theorem stored_of_target
    (h : (f.put (dir ++ [name]) (.file content)).target path clobber = .ok target) :
    ∃ p dir' name', f.Stored path content (f.put target (.file content)) p dir' name' ∧
      target = dir' ++ [name'] ∧ ¬ dir ++ [name] <+: f.origin p := by
  obtain ⟨p, hp, h⟩ := bind_eq_ok h
  obtain ⟨dir', names', name', hwalk, hcontents, hlast, hdots, hshort, hclosed, hold, rfl⟩ :=
    newPlace_ok (mapError_eq_ok h)
  have hfile : (f.root.put (dir ++ [name]) (.file content)).sort (dir ++ [name]) ≠ some none := by
    rw [FileTree.sort_of_find (FileTree.find_put_self hdir)]
    intro h
    cases h
  have hdir' : (f.root.put (dir ++ [name]) (.file content)).find dir' = some (.directory names') :=
    FileTree.find_of_contents hcontents
  have hpre := FileTree.not_prefix_of_directory hfile hdir'
  obtain ⟨_, hstart⟩ := FileTree.directory_of_walk hwalk hcontents
  have horigin : ¬ dir ++ [name] <+: f.origin p := FileTree.not_prefix_of_directory hfile hstart
  obtain ⟨names'', hnames'', -⟩ := FileTree.contents_of_sort
    ((FileTree.sort_put hdir hpre).symm.trans (FileTree.sort_of_find hdir'))
  refine ⟨p, dir', name', ⟨hp, ?_, ⟨names'', hnames''⟩, hlast, hdots, hshort, hclosed, ?_, rfl⟩,
    rfl, horigin⟩
  · exact FileTree.walk_of_put_new hdir hnew horigin hwalk hdir'
  · intro hplace
    by_cases hsnoc : dir ++ [name] <+: dir' ++ [name']
    · obtain ⟨rfl, rfl⟩ := FileTree.eq_of_prefix_snoc hpre hsnoc
      rw [FileTree.sort, FileTree.find_snoc hdir, hnew] at hplace
      cases hplace
    · rw [← FileTree.sort_put hdir hsnoc, FileTree.sort, FileTree.find_snoc hdir'] at hplace
      obtain ⟨found, hfound, hcontent⟩ := Option.map_eq_some_iff.mp hplace
      cases found with
      | file c => cases hcontent
      | directory inner => exact hold inner hfound

/-- A new file that can be renamed is stored as if it had never had another name. -/
theorem stored_of_rename
    (h : (f.put (dir ++ [name]) (.file content)).target path clobber = .ok target) :
    ∃ p dir' name', ((f.put (dir ++ [name]) (.file content)).remove (dir ++ [name])).Stored path
      content ((f.put (dir ++ [name]) (.file content)).rename (dir ++ [name]) target) p dir' name' ∧
      ¬ dir ++ [name] <+: f.origin p := by
  obtain ⟨p, dir', name', hstored, rfl, horigin⟩ := stored_of_target hdir hnew h
  have hfind : (f.put (dir ++ [name]) (.file content)).root.find (dir ++ [name]) =
      some (.file content) := FileTree.find_put_self hdir
  refine ⟨p, dir', name', ?_, horigin⟩
  rw [rename, hfind]
  exact hstored.congr rfl (FileTree.sort_remove_put hdir hnew)

end Filling

section Renewing

variable {draws : List String} {bytes : ByteArray} {sizes : List Nat} {changes : List Change}

theorem renewing_ok (h : f.renewing path draws bytes sizes clobber = (changes, .ok ())) :
    ∃ dir names, ∃ name ∈ draws, ∃ target, f.root.find dir = some (.directory names) ∧
      names.lookup name = none ∧
      (f.put (dir ++ [name]) (.file (.ofBytes bytes))).target path clobber = .ok target ∧
      changes = filling (dir ++ [name]) bytes sizes ++ [.rename (dir ++ [name]) target] := by
  unfold renewing at h
  split at h
  · cases h
  · rename_i place haside
    obtain ⟨dir, names, name, hname, hdir, hnew, rfl⟩ := aside_ok haside
    simp only [changed_filling hdir] at h
    split at h
    · cases h
    · rename_i target htarget
      cases h
      exact ⟨dir, names, name, hname, target, hdir, hnew, htarget, rfl⟩

/-- Where nothing but the file itself has one of the drawn names, the file is found as it was or
with all of its bytes, after any number of changes. -/
theorem content?_of_renewing (h : f.renewing path draws bytes sizes clobber = (changes, .ok ()))
    (hdraws : ∀ p, Path.read path = .ok p → ∀ name ∈ draws, p.parts.getLast? ≠ some name)
    (k : Nat) :
    (f.changed (changes.take k)).content? path = f.content? path ∨
      (f.changed (changes.take k)).content? path = some (.ofBytes bytes) := by
  obtain ⟨dir, names, name, hname, target, hdir, hnew, htarget, rfl⟩ := renewing_ok h
  obtain ⟨p, dir', name', hstored, horigin⟩ := stored_of_rename hdir hnew htarget
  by_cases hk : k ≤ (filling (dir ++ [name]) bytes sizes).length
  · left
    rw [List.take_append_of_le_length hk]
    rcases changed_of_writes hdir
      fun c hc => write_of_mem_filling (List.mem_of_mem_take hc) with hsame | ⟨part, hpart⟩
    · rw [hsame]
    · rw [hpart]
      exact content?_put_new part hdir hnew hstored.read horigin (hdraws p hstored.read name hname)
  · right
    rw [List.take_of_length_le (by rw [List.length_append, List.length_singleton]; omega),
      changed_append, changed_filling hdir]
    exact hstored.content?

theorem renewing_sizes (f : Files) (path : String) (draws : List String) (bytes : ByteArray)
    (sizes : List Nat) (clobber : Bool) :
    let w := f.renewing path draws bytes sizes clobber
    let w' := f.renewing path draws bytes [] clobber
    (f.changed w.1, w.2) = (f.changed w'.1, w'.2) := by
  intro w w'
  simp only [w, w', renewing]
  cases haside : f.aside path draws with
  | error o => rfl
  | ok place =>
    obtain ⟨dir, names, name, -, hdir, -, rfl⟩ := aside_ok haside
    simp only [changed_filling hdir]
    split
    · simp only [changed_append, changed_filling hdir]
    · simp only [changed_append, changed_filling hdir]

/-- If a file does not get its bytes, nothing changes. -/
theorem content?_of_not_renewed {e : FileError}
    (h : f.renewing path draws bytes sizes clobber = (changes, .error e)) (other : String) :
    (f.changed changes).content? other = f.content? other := by
  unfold renewing at h
  split at h
  · cases h
    rfl
  · rename_i place haside
    obtain ⟨dir, names, name, -, hdir, hnew, rfl⟩ := aside_ok haside
    simp only [changed_filling hdir] at h
    split at h
    · cases h
      rw [changed_append, changed_filling hdir]
      refine content?_of_sort ?_ (fun q => ?_) other
      · rfl
      · exact FileTree.sort_remove_put hdir hnew q
    · cases h

end Renewing

theorem isBlank_of_end : ∀ c ∈ ['\n'], Json.isBlank (some c) = true :=
  List.forall_mem_singleton.mpr rfl

variable {draws : List String} {v : Json}

theorem content?_of_writeJson (h : f.writeJson path draws v clobber = (g, .ok ())) :
    g.content? path = some (.ofBytes (documentText v).toUTF8) := by
  cases hrenewing : f.renewing path draws (documentText v).toUTF8 [] clobber with
  | mk changes result =>
  rw [writeJson, hrenewing] at h
  cases h
  obtain ⟨dir, names, name, -, target, hdir, hnew, htarget, rfl⟩ := renewing_ok hrenewing
  obtain ⟨p, dir', name', hstored, -⟩ := stored_of_rename hdir hnew htarget
  rw [changed_append, changed_filling hdir]
  exact hstored.content?

theorem place_here (hhere : f.root.find f.here = some (.directory names)) :
    f.place "." = .ok f.here := by
  have hsplit : ".".splitOn "/" = ["."] := by
    rw [String.splitOn]
    iterate 2 rw [String.splitOnAux]
    rfl
  have hdot : Path.read "." = .ok ⟨false, ["."], false⟩ :=
    Path.read_name hsplit (by decide) (by decide) (by decide) (by decide +kernel)
      (by decide +kernel)
  have hcontents : f.root.contents f.here = .ok names := by rw [FileTree.contents, hhere]
  simp only [Files.place, hdot, locate, origin, FileTree.walk, List.foldlM_cons, List.foldlM_nil,
    FileTree.step, Bool.false_eq_true, if_false, hcontents, bind, Except.bind]
  rfl

theorem target_here (hhere : f.root.find f.here = some (.directory names))
    (hpath : Path.read path = .ok ⟨false, [name], false⟩) (hdots : name ≠ "." ∧ name ≠ "..")
    (hshort : ¬ Path.maxName < name.utf8ByteSize)
    (hname : ∀ inner, names.lookup name ≠ some (.directory inner)) :
    f.target path true = .ok (f.here ++ [name]) := by
  have hcontents : f.root.contents f.here = .ok names := by rw [FileTree.contents, hhere]
  have hlast : (Path.mk false [name] false).name? = some name := by
    rw [Path.name?, List.getLast?_singleton, Option.filter_some, if_pos (decide_eq_true hdots)]
  have horigin : f.origin ⟨false, [name], false⟩ = f.here := rfl
  simp only [target, hpath, newPlace, horigin, List.dropLast_singleton, FileTree.walk,
    List.foldlM_nil, bind, Except.bind, Bool.false_eq_true, if_false, pure, Except.pure, hcontents,
    hlast, if_neg hshort, Bool.not_true, Bool.and_false, mapError_ok]

/-- Where the program is, a document can be written under a name that no directory has. -/
theorem exists_writeJson (hhere : f.root.find f.here = some (.directory names))
    (hparent : Path.parent path = ".") (hpath : Path.read path = .ok ⟨false, [name], false⟩)
    (hdots : name ≠ "." ∧ name ≠ "..") (hshort : ¬ Path.maxName < name.utf8ByteSize)
    (hname : ∀ inner, names.lookup name ≠ some (.directory inner)) {draw : String}
    (hdraw : names.lookup draw = none) (v : Json) :
    ∃ g, f.writeJson path [draw] v true = (g, .ok ()) := by
  have hcontents : f.root.contents f.here = .ok names := by rw [FileTree.contents, hhere]
  have haside : f.aside path [draw] = .ok (f.here ++ [draw]) := by
    rw [aside, hparent]
    simp only [place_here hhere, hcontents, mapError_ok, bind, Except.bind, List.find?_singleton,
      hdraw]
    rfl
  let w := f.put (f.here ++ [draw]) (.file (.ofBytes (documentText v).toUTF8))
  have hput : ∀ q, ¬ f.here ++ [draw] <+: q → w.root.sort q = f.root.sort q :=
    fun q => FileTree.sort_put hhere
  have hpre := FileTree.not_prefix_snoc f.here draw
  obtain ⟨names', hnames', -⟩ := FileTree.contents_of_sort
    ((hput _ hpre).trans (FileTree.sort_of_find hhere))
  have hname' : ∀ inner, names'.lookup name ≠ some (.directory inner) := by
    intro inner h
    rw [← FileTree.find_snoc hnames'] at h
    by_cases hd : draw = name
    · subst hd
      cases (FileTree.find_put_self hhere).symm.trans h
    · have hsort : f.root.sort (f.here ++ [name]) = some none :=
        (hput _ fun hsnoc => hd (FileTree.eq_of_prefix_snoc hpre hsnoc).2.symm).symm.trans
          (FileTree.sort_of_find h)
      obtain ⟨inner', hinner, -⟩ := FileTree.contents_of_sort hsort
      exact hname inner' (FileTree.find_snoc hhere name ▸ hinner)
  have htarget : w.target path true = .ok (f.here ++ [name]) :=
    target_here hnames' hpath hdots hshort hname'
  refine ⟨_, Prod.ext rfl ?_⟩
  show (f.renewing path [draw] (documentText v).toUTF8 [] true).2 = .ok ()
  simp only [renewing, haside, changed_filling hhere]
  rw [show (f.put _ _).target path true = _ from htarget]

/-- A document that was written is read from its file. -/
theorem readJson_of_writeJson {α : Type} {meaning : Json → Except Unreadable α} {x : α}
    (h : f.writeJson path draws v clobber = (g, .ok ())) (hsound : v.Sound) (hnull : v ≠ .null)
    (hsize : (documentText v).utf8ByteSize ≤ Bytes.limit) (hx : meaning v = .ok x) :
    g.readJson path meaning = .ok x := by
  have hlookup := lookup_of_content? (content?_of_writeJson h)
  have hbytes : (Extent.ofBytes (documentText v).toUTF8).toBytes = (documentText v).toUTF8 :=
    Extent.toBytes_ofBytes hsize
  rw [documentText] at hbytes
  have hread : g.readJson? path meaning = .ok (some x) := by
    rw [readJson?, hlookup]
    simp only [documentText, hbytes]
    rw [(Json.reads_pretty 0 v hsound).decode_bytes isBlank_of_end]
    split
    · exact absurd rfl hnull
    · rw [hx]
      rfl
  rw [readJson, hread]
  rfl

end Files

end Readback
