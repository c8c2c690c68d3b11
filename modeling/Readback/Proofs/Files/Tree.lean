import Mathlib.Data.List.Infix
import Readback.Files
import Readback.Proofs.Except

namespace Readback.FileTree

def content? : FileTree → Option Extent
  | file content => some content
  | directory _ => none

/-- What is known of a place without looking at the names there. -/
def sort (t : FileTree) (place : List String) : Option (Option Extent) :=
  (t.find place).map content?

theorem isNone_sort (t : FileTree) (place : List String) :
    (t.sort place).isNone = (t.find place).isNone := by
  rw [sort, Option.isNone_map]

theorem lookup_cons (m : String) (t : FileTree) (names : List (String × FileTree)) (n : String) :
    ((m, t) :: names).lookup n = if n = m then some t else names.lookup n := by
  rw [List.lookup_cons]
  by_cases hn : n = m
  · rw [if_pos hn, beq_iff_eq.mpr hn]
  · rw [if_neg hn, beq_false_of_ne hn]

theorem lookup_setName (name : String) (t : FileTree) (names : List (String × FileTree))
    (n : String) :
    (setName name t names).lookup n = if n = name then some t else names.lookup n := by
  induction names with
  | nil => exact lookup_cons name t [] n
  | cons p rest ih =>
    obtain ⟨m, old⟩ := p
    rw [setName]
    split
    · rename_i hm
      subst hm
      rw [lookup_cons, lookup_cons]
      split <;> rfl
    split
    · exact lookup_cons name t _ n
    · rename_i hm _
      rw [lookup_cons, lookup_cons, ih]
      by_cases hn : n = m
      · rw [if_pos hn, if_neg fun he => hm (hn ▸ he), if_pos hn]
      · rw [if_neg hn, if_neg hn]

theorem setName_setName (name : String) (t u : FileTree) (names : List (String × FileTree)) :
    setName name u (setName name t names) = setName name u names := by
  induction names with
  | nil => simp only [setName, if_true]
  | cons p rest ih =>
    obtain ⟨m, old⟩ := p
    by_cases hm : m = name
    · simp only [setName, if_pos hm, if_true]
    by_cases hlt : name < m
    · simp only [setName, if_neg hm, if_pos hlt, if_true]
    · simp only [setName, if_neg hm, if_neg hlt, ih]

theorem lookup_filter (name : String) (names : List (String × FileTree)) (n : String) :
    (names.filter (·.1 ≠ name)).lookup n = if n = name then none else names.lookup n := by
  induction names with
  | nil => exact (ite_self none).symm
  | cons p rest ih =>
    obtain ⟨m, t⟩ := p
    rw [List.filter_cons]
    split
    · rename_i hm
      rw [lookup_cons, lookup_cons, ih]
      by_cases hn : n = m
      · rw [if_pos hn, if_pos hn, if_neg (hn ▸ of_decide_eq_true hm)]
      · rw [if_neg hn, if_neg hn]
    · rename_i hm
      obtain rfl : m = name := by simpa using hm
      rw [ih, lookup_cons]
      by_cases hn : n = m
      · rw [if_pos hn, if_pos hn]
      · rw [if_neg hn, if_neg hn, if_neg hn]

variable {t new : FileTree} {dir q : List String} {name : String}
  {names : List (String × FileTree)}

theorem sort_of_find (h : t.find q = some new) : t.sort q = some new.content? := by
  rw [sort, h]
  rfl

theorem find_append (t : FileTree) (p q : List String) :
    t.find (p ++ q) = t.find p >>= fun t => t.find q := by
  induction p generalizing t with
  | nil => rfl
  | cons a p ih =>
    cases t with
    | file c => rfl
    | directory names =>
      simp only [List.cons_append, find, bind, Option.bind_assoc]
      exact congrArg _ (funext fun t => ih t)

theorem eq_of_find_single {content content' : Extent}
    (h : (directory [(name, file content)]).find q = some (file content')) :
    content' = content := by
  cases q with
  | nil => cases h
  | cons part rest =>
    obtain ⟨found, hlookup, hfind⟩ := Option.bind_eq_some_iff.mp h
    rw [lookup_cons] at hlookup
    split at hlookup
    · cases hlookup
      cases rest with
      | nil =>
        cases hfind
        rfl
      | cons => cases hfind
    · cases hlookup

theorem put_cons {ns : List (String × FileTree)} {a : String} {p : List String} (hp : p ≠ [])
    {inner : FileTree} (h : ns.lookup a = some inner) :
    (directory ns).put (a :: p) new = directory (setName a (inner.put p new) ns) := by
  obtain ⟨b, p, rfl⟩ := List.exists_cons_of_ne_nil hp
  rw [put]
  · simp only [h]
  · nofun

theorem remove_cons {ns : List (String × FileTree)} {a : String} {p : List String} (hp : p ≠ [])
    {inner : FileTree} (h : ns.lookup a = some inner) :
    (directory ns).remove (a :: p) = directory (setName a (inner.remove p) ns) := by
  obtain ⟨b, p, rfl⟩ := List.exists_cons_of_ne_nil hp
  rw [remove]
  · simp only [h]
  · nofun

theorem put_put (h : t.find dir = some (directory names)) (old : FileTree) :
    (t.put (dir ++ [name]) old).put (dir ++ [name]) new = t.put (dir ++ [name]) new := by
  induction dir generalizing t with
  | nil =>
    cases h
    simp only [List.nil_append, put, setName_setName]
  | cons a dir ih =>
    cases t with
    | file c => cases h
    | directory ns =>
      obtain ⟨inner, ha, hinner⟩ := Option.bind_eq_some_iff.mp h
      have hset : (setName a (inner.put (dir ++ [name]) old) ns).lookup a =
          some (inner.put (dir ++ [name]) old) := by rw [lookup_setName, if_pos rfl]
      rw [List.cons_append, put_cons (by simp) ha, put_cons (by simp) hset, put_cons (by simp) ha,
        ih hinner, setName_setName]

theorem find_put_self (h : t.find dir = some (directory names)) :
    (t.put (dir ++ [name]) new).find (dir ++ [name]) = some new := by
  induction dir generalizing t with
  | nil =>
    cases h
    simp [put, find, lookup_setName]
  | cons a dir ih =>
    cases t with
    | file c => cases h
    | directory ns =>
      obtain ⟨inner, ha, hinner⟩ := Option.bind_eq_some_iff.mp h
      rw [List.cons_append, put_cons (by simp) ha]
      simp only [find, lookup_setName, if_true, bind, Option.bind_some]
      exact ih hinner

theorem sort_put (h : t.find dir = some (directory names)) (hq : ¬ dir ++ [name] <+: q) :
    (t.put (dir ++ [name]) new).sort q = t.sort q := by
  induction dir generalizing t q with
  | nil =>
    cases h
    cases q with
    | nil => rfl
    | cons b q =>
      have hb : b ≠ name := by
        rintro rfl
        exact hq (by simp)
      simp only [sort, List.nil_append, put, find, lookup_setName, if_neg hb]
  | cons a dir ih =>
    cases t with
    | file c => cases h
    | directory ns =>
      obtain ⟨inner, ha, hinner⟩ := Option.bind_eq_some_iff.mp h
      rw [List.cons_append, put_cons (by simp) ha]
      cases q with
      | nil => rfl
      | cons b q =>
        simp only [sort, find, lookup_setName]
        by_cases hb : b = a
        · subst hb
          have hrest : ¬ dir ++ [name] <+: q := fun hpre => hq (by simpa using hpre)
          have := ih hinner hrest
          simp only [sort] at this
          rw [if_pos rfl, ha]
          exact this
        · rw [if_neg hb]

/-- What is put where nothing was, and then taken away, leaves everything as it was. -/
theorem sort_remove_put (h : t.find dir = some (directory names)) (hnew : names.lookup name = none)
    (q : List String) :
    ((t.put (dir ++ [name]) new).remove (dir ++ [name])).sort q = t.sort q := by
  induction dir generalizing t q with
  | nil =>
    cases h
    cases q with
    | nil => rfl
    | cons b q =>
      simp only [sort, List.nil_append, put, remove, find, lookup_filter, lookup_setName]
      by_cases hb : b = name
      · rw [if_pos hb, hb, hnew]
      · rw [if_neg hb, if_neg hb]
  | cons a dir ih =>
    cases t with
    | file c => cases h
    | directory ns =>
      obtain ⟨inner, ha, hinner⟩ := Option.bind_eq_some_iff.mp h
      have hset : (setName a (inner.put (dir ++ [name]) new) ns).lookup a =
          some (inner.put (dir ++ [name]) new) := by rw [lookup_setName, if_pos rfl]
      rw [List.cons_append, put_cons (by simp) ha, remove_cons (by simp) hset, setName_setName]
      cases q with
      | nil => rfl
      | cons b q =>
        simp only [sort, find, lookup_setName]
        by_cases hb : b = a
        · have := ih hinner q
          simp only [sort] at this
          rw [if_pos hb, hb, ha]
          exact this
        · rw [if_neg hb]

theorem contents_of_sort (h : t.sort q = some none) :
    ∃ names, t.find q = some (directory names) ∧ t.contents q = .ok names := by
  obtain ⟨found, hfound, hcontent⟩ := Option.map_eq_some_iff.mp h
  cases found with
  | file c => cases hcontent
  | directory names => exact ⟨names, hfound, by rw [contents, hfound]⟩

theorem find_of_contents (h : t.contents q = .ok names) : t.find q = some (directory names) := by
  unfold contents at h
  split at h
  · cases h
    assumption
  · cases h
  · cases h

theorem find_snoc (h : t.find q = some (directory names)) (part : String) :
    t.find (q ++ [part]) = names.lookup part := by
  rw [find_append, h]
  simp only [bind, Option.bind, find]
  cases names.lookup part <;> rfl

theorem contents_congr {t' : FileTree} (hq : t'.sort q = t.sort q) {e : Errno}
    (h : t.contents q = .error e) : t'.contents q = .error e := by
  unfold contents at h ⊢
  simp only [sort] at hq
  split at h
  · cases h
  · rename_i c hc
    rw [hc] at hq
    obtain ⟨found, hfound, hcontent⟩ := Option.map_eq_some_iff.mp hq
    cases found with
    | file c => rw [hfound]; exact h
    | directory names => cases hcontent
  · rename_i hnone
    rw [hnone] at hq
    rw [Option.map_eq_none_iff.mp hq]
    exact h

theorem step_congr {t' : FileTree} {part : String} (hq : t'.sort q = t.sort q)
    (hnext : (t'.find (q ++ [part])).isNone = (t.find (q ++ [part])).isNone) :
    t'.step q part = t.step q part := by
  cases hc : t.contents q with
  | error e => simp only [step, hc, contents_congr hq hc]
  | ok names =>
    have hfind := find_of_contents hc
    obtain ⟨names', hfind', hc'⟩ := contents_of_sort (hq.trans (sort_of_find hfind))
    rw [find_snoc hfind, find_snoc hfind'] at hnext
    simp only [step, hc, hc', bind, Except.bind, hnext]

theorem walk_congr {t' : FileTree} (h : ∀ q, t'.sort q = t.sort q) (parts : List String) :
    t'.walk q parts = t.walk q parts := by
  have hstep : t'.step = t.step := by
    funext q part
    exact step_congr (h q) (by rw [← isNone_sort, ← isNone_sort, h])
  rw [walk, walk, hstep]

theorem of_step {part : String} {r : List String} (h : t.step q part = .ok r) :
    (∃ names, t.find q = some (directory names)) ∧
      (r = q ∨ r = q.dropLast ∨ r = q ++ [part] ∧ part ≠ "." ∧ part ≠ "..") := by
  obtain ⟨names, hnames, h⟩ := bind_eq_ok h
  refine ⟨⟨names, find_of_contents hnames⟩, ?_⟩
  split at h
  · cases h
    exact .inl rfl
  split at h
  · cases h
    exact .inr (.inl rfl)
  split at h
  · cases h
  split at h
  · cases h
  · cases h
    exact .inr (.inr ⟨rfl, ‹_›, ‹_›⟩)

theorem directory_of_walk {parts r : List String} (hw : t.walk q parts = .ok r)
    (hc : t.contents r = .ok names) : ∃ names, t.find q = some (directory names) := by
  cases parts with
  | nil =>
    cases hw
    exact ⟨names, find_of_contents hc⟩
  | cons part parts =>
    obtain ⟨q', hs, -⟩ := bind_eq_ok hw
    exact (of_step hs).1

theorem not_prefix_of_directory (hplace : t.sort (dir ++ [name]) ≠ some none)
    (h : t.find q = some (directory names)) : ¬ dir ++ [name] <+: q := by
  rintro ⟨rest, rfl⟩
  obtain ⟨found, hfound, hrest⟩ := Option.bind_eq_some_iff.mp (find_append t _ rest ▸ h)
  cases found with
  | directory names => exact hplace (by rw [sort, hfound]; rfl)
  | file c =>
    cases rest with
    | nil => cases hrest
    | cons a rest => cases hrest

theorem not_prefix_snoc (dir : List String) (name : String) : ¬ dir ++ [name] <+: dir :=
  fun h => absurd h.length_le (by rw [List.length_append]; exact Nat.not_succ_le_self _)

theorem eq_of_prefix_snoc {part : String} (hq : ¬ dir ++ [name] <+: q)
    (h : dir ++ [name] <+: q ++ [part]) : q = dir ∧ part = name := by
  rcases List.prefix_concat_iff.mp h with he | hpre
  · have := List.append_inj' he rfl
    exact ⟨this.1.symm, (List.cons.inj this.2).1.symm⟩
  · exact absurd hpre hq

section Put

variable {part : String} {parts r : List String} {content : Extent}
  (h : t.find dir = some (directory names))

include h

theorem step_put (hplace : t.sort (dir ++ [name]) ≠ some none) (hs : t.step q part = .ok r) :
    (t.put (dir ++ [name]) (file content)).step q part = .ok r := by
  obtain ⟨names', hc, hs⟩ := bind_eq_ok hs
  have hq := find_of_contents hc
  have hpre := not_prefix_of_directory hplace hq
  obtain ⟨names'', hq', hc'⟩ := contents_of_sort (t := t.put (dir ++ [name]) (file content))
    ((sort_put h hpre).trans (sort_of_find hq))
  have hlookup : (names''.lookup part).isNone = true → (names'.lookup part).isNone = true := by
    rw [← find_snoc hq, ← find_snoc hq']
    by_cases hnext : dir ++ [name] <+: q ++ [part]
    · obtain ⟨rfl, rfl⟩ := eq_of_prefix_snoc hpre hnext
      rw [find_put_self h]
      nofun
    · rw [← isNone_sort, ← isNone_sort, sort_put h hnext]
      exact id
  simp only [step, hc', bind, Except.bind]
  split at hs
  · rw [if_pos ‹_›]
    exact hs
  split at hs
  · rw [if_neg ‹_›, if_pos ‹_›]
    exact hs
  split at hs
  · cases hs
  split at hs
  · cases hs
  · rename_i hsome
    rw [if_neg ‹_›, if_neg ‹_›, if_neg ‹_›, if_neg fun hnone => hsome (hlookup hnone)]
    exact hs

theorem walk_put (hplace : t.sort (dir ++ [name]) ≠ some none) (hw : t.walk q parts = .ok r) :
    (t.put (dir ++ [name]) (file content)).walk q parts = .ok r := by
  induction parts generalizing q with
  | nil => exact hw
  | cons part parts ih =>
    obtain ⟨q', hs, hw⟩ := bind_eq_ok hw
    show (t.put (dir ++ [name]) (file content)).step q part >>= _ = _
    rw [step_put h hplace hs]
    exact ih hw

theorem step_put_self (hdot : name ≠ ".") (hdots : name ≠ "..")
    (hshort : ¬ Path.maxName < name.utf8ByteSize) :
    (t.put (dir ++ [name]) (file content)).step dir name = .ok (dir ++ [name]) := by
  obtain ⟨names', hq', hc'⟩ := contents_of_sort (t := t.put (dir ++ [name]) (file content))
    ((sort_put h (not_prefix_snoc dir name)).trans (sort_of_find h))
  have hlookup : names'.lookup name = some (file content) := by
    rw [← find_snoc hq', find_put_self h]
  simp only [step, hc', hlookup, bind, Except.bind]
  rw [if_neg hdot, if_neg hdots, if_neg hshort]
  rfl

theorem step_put_new (content : Extent) (part : String) (hnew : names.lookup name = none)
    (hq : ¬ dir ++ [name] <+: q) :
    (t.put (dir ++ [name]) (file content)).step q part = t.step q part ∧
        (∀ r, t.step q part = .ok r → ¬ dir ++ [name] <+: r) ∨
      (t.put (dir ++ [name]) (file content)).step q part = .ok (dir ++ [name]) ∧
        t.step q part = .error .notFound ∧ part = name := by
  have hsort : (t.put (dir ++ [name]) (file content)).sort q = t.sort q := sort_put h hq
  by_cases hnext : dir ++ [name] <+: q ++ [part]
  · obtain ⟨rfl, rfl⟩ := eq_of_prefix_snoc hq hnext
    have hc : t.contents q = .ok names := by rw [contents, h]
    obtain ⟨names', hq', hc'⟩ := contents_of_sort (t := t.put (q ++ [part]) (file content))
      (hsort.trans (sort_of_find h))
    have hlookup : names'.lookup part = some (file content) := by
      rw [← find_snoc hq', find_put_self h]
    simp only [step, hc, hc', hnew, hlookup, bind, Except.bind]
    by_cases hdot : part = "."
    · left
      rw [if_pos hdot, if_pos hdot]
      exact ⟨rfl, fun r hr => by cases hr; exact hq⟩
    by_cases hdots : part = ".."
    · left
      rw [if_neg hdot, if_neg hdot, if_pos hdots, if_pos hdots]
      exact ⟨rfl, fun r hr => by cases hr; exact fun hp => hq (hp.trans (List.dropLast_prefix q))⟩
    by_cases hlong : Path.maxName < part.utf8ByteSize
    · left
      rw [if_neg hdot, if_neg hdot, if_neg hdots, if_neg hdots, if_pos hlong, if_pos hlong]
      exact ⟨rfl, nofun⟩
    · right
      rw [if_neg hdot, if_neg hdot, if_neg hdots, if_neg hdots, if_neg hlong, if_neg hlong]
      exact ⟨rfl, rfl, trivial⟩
  · left
    refine ⟨step_congr hsort (by rw [← isNone_sort, ← isNone_sort, sort_put h hnext]), ?_⟩
    intro r hr
    obtain ⟨-, rfl | rfl | ⟨rfl, -⟩⟩ := of_step hr
    · exact hq
    · exact fun hp => hq (hp.trans (List.dropLast_prefix q))
    · exact hnext

/-- A new file changes where a path leads only if the path ends with its name. -/
theorem walk_put_new (content : Extent) (parts : List String) (hnew : names.lookup name = none)
    (hq : ¬ dir ++ [name] <+: q) :
    (t.put (dir ++ [name]) (file content)).walk q parts = t.walk q parts ∧
        (∀ r, t.walk q parts = .ok r → ¬ dir ++ [name] <+: r) ∨
      (∃ e, (t.put (dir ++ [name]) (file content)).walk q parts = .error e) ∧
        (∃ e, t.walk q parts = .error e) ∨
      (t.put (dir ++ [name]) (file content)).walk q parts = .ok (dir ++ [name]) ∧
        parts.getLast? = some name := by
  -- On the parts.  A step on the new name ends in a file, from which no other part leads on.
  induction parts generalizing q with
  | nil => exact .inl ⟨rfl, fun r hr => by cases hr; exact hq⟩
  | cons part parts ih =>
    simp only [walk, List.foldlM_cons] at ih ⊢
    rcases step_put_new h content part hnew hq with
      ⟨hstep, hr⟩ | ⟨hstep, hnone, rfl⟩
    · rw [hstep]
      cases hs : t.step q part with
      | error e => exact .inr (.inl ⟨⟨e, rfl⟩, e, rfl⟩)
      | ok q' =>
        rcases ih (hr q' hs) with hsame | herror | ⟨hput, hlast⟩
        · exact .inl hsame
        · exact .inr (.inl herror)
        · exact .inr (.inr ⟨hput, by rw [List.getLast?_cons, hlast]; rfl⟩)
    · rw [hstep, hnone]
      cases parts with
      | nil => exact .inr (.inr ⟨rfl, rfl⟩)
      | cons a parts =>
        have hfile : (t.put (dir ++ [part]) (file content)).contents (dir ++ [part]) =
            .error .notDirectory := by
          rw [contents, find_put_self h]
        refine .inr (.inl ⟨⟨.notDirectory, ?_⟩, .notFound, rfl⟩)
        simp only [bind, Except.bind, List.foldlM_cons, step, hfile]

theorem walk_of_put_new {names' : List (String × FileTree)} (hnew : names.lookup name = none)
    (hq : ¬ dir ++ [name] <+: q)
    (hw : (t.put (dir ++ [name]) (file content)).walk q parts = .ok r)
    (hr : (t.put (dir ++ [name]) (file content)).find r = some (directory names')) :
    t.walk q parts = .ok r := by
  rcases walk_put_new h content parts hnew hq with ⟨hsame, -⟩ | ⟨⟨e, he⟩, -⟩ | ⟨hput, -⟩
  · exact hsame ▸ hw
  · cases hw.symm.trans he
  · cases hw.symm.trans hput
    cases (find_put_self h).symm.trans hr

end Put

end Readback.FileTree
