import DmaBurst.Io.QueueFile
import Mathlib.Data.List.Nodup
import Mathlib.Tactic.SplitIfs

namespace DmaBurst

theorem Text.splitAt_of_notMem {sep : Char} {t : List Char} (ht : sep ∉ t) :
    splitAt sep t = [t] := by
  induction t with
  | nil => rfl
  | cons c t ih =>
    simp only [List.mem_cons, not_or] at ht
    rw [splitAt, if_neg (Ne.symm ht.1), ih ht.2]

theorem Text.splitAt_append (sep : Char) (s : List Char) : ∃ front last, ∀ t, sep ∉ t →
    splitAt sep (s ++ t) = front ++ [last ++ t] := by
  induction s with
  | nil => exact ⟨[], [], fun t ht => splitAt_of_notMem ht⟩
  | cons c s ih =>
    obtain ⟨front, last, h⟩ := ih
    by_cases hc : c = sep
    · refine ⟨[] :: front, last, fun t ht => ?_⟩
      rw [List.cons_append, splitAt, if_pos hc, h t ht]
      rfl
    · cases front with
      | nil =>
        refine ⟨[], c :: last, fun t ht => ?_⟩
        rw [List.cons_append, splitAt, if_neg hc, h t ht]
        rfl
      | cons piece front =>
        refine ⟨(c :: piece) :: front, last, fun t ht => ?_⟩
        rw [List.cons_append, splitAt, if_neg hc, h t ht]
        rfl

namespace Path

def ending (index : Nat) : List Char :=
  Nat.toDigits 10 index ++ ['.', 'd', 'a', 't']

theorem ending_injective {i j : Nat} (h : ending i = ending j) : i = j := by
  have hdigits : Nat.toDigits 10 i = Nat.toDigits 10 j := List.append_cancel_right h
  rw [← Nat.ofDigitChars_ten_toDigits (n := i), hdigits, Nat.ofDigitChars_ten_toDigits]

theorem slash_notMem_ending (index : Nat) : '/' ∉ ending index := by
  rw [ending, List.mem_append, not_or]
  refine ⟨fun hm => ?_, by decide⟩
  exact absurd (Nat.isDigit_of_mem_toDigits (by decide) (by decide) hm) (by decide)

theorem toList_queueFile (dir pre : String) :
    ∃ front, ∀ index, (queueFile dir pre index).toList = front ++ ending index := by
  have hfile : ∀ index : Nat,
      (pre ++ toString index ++ ".dat").toList = pre.toList ++ ending index := by
    intro index
    simp [ending]
  have hstart : ∀ index : Nat,
      (pre ++ toString index ++ ".dat").startsWith "/" = pre.startsWith "/" := by
    intro index
    rw [Bool.eq_iff_iff, String.startsWith_string_iff, String.startsWith_string_iff, hfile]
    cases pre.toList with
    | nil =>
      constructor
      · intro h
        exact absurd (h.subset List.mem_cons_self) (slash_notMem_ending index)
      · intro h
        cases List.eq_nil_of_prefix_nil h
    | cons c cs => simp [List.cons_prefix_cons]
  refine ⟨(if dir = "" ∨ pre.startsWith "/" then "" else
    if dir.endsWith "/" then dir else dir ++ "/").toList ++ pre.toList, fun index => ?_⟩
  rw [queueFile, join, hstart, List.append_assoc, ← hfile, ← String.toList_append]
  split_ifs <;> simp

theorem names_queueFile (dir pre : String) : ∃ front last, ∀ index,
    names (queueFile dir pre index) = front ++ [String.ofList (last ++ ending index)] := by
  obtain ⟨path, hpath⟩ := toList_queueFile dir pre
  obtain ⟨front, last, hsplit⟩ := Text.splitAt_append '/' path
  refine ⟨(front.filter (· ≠ [])).map String.ofList, last, fun index => ?_⟩
  have hend : (queueFile dir pre index).endsWith "/" = false := by
    rw [← String.endsWith_toSlice, String.Slice.endsWith_string_eq_false_iff, String.copy_toSlice,
      hpath]
    rintro ⟨rest, h⟩
    have hlast := congrArg List.getLast? h
    simp [ending] at hlast
  have hne : last ++ ending index ≠ [] := by simp [ending]
  rw [names, hend, parts, hpath, hsplit _ (slash_notMem_ending index), List.filter_append]
  simp [hne]

end Path

namespace FileTree

variable {t t' : FileTree} {p q : Place} {path name : String} {content : Bytes}

theorem lookup_write (p q : Place) (content : Bytes) (t : FileTree) :
    (t.write p content).files.lookup q = if q = p then some content else t.files.lookup q := by
  have hfilter : ∀ files : List (Place × Bytes), q ≠ p →
      (files.filter (·.1 ≠ p)).lookup q = files.lookup q := by
    intro files hq
    induction files with
    | nil => rfl
    | cons file files ih =>
      by_cases hp : file.1 = p
      · have hne : (q == file.1) = false := by simp [hp, hq]
        rw [List.filter_cons_of_neg (by simp [hp]), ih, List.lookup_cons, hne]
      · rw [List.filter_cons_of_pos (by simpa using hp), List.lookup_cons, List.lookup_cons, ih]
  rw [write, List.lookup_cons]
  by_cases hq : q = p
  · simp [hq]
  · rw [if_neg hq, hfilter _ hq, beq_eq_false_iff_ne.mpr hq]

theorem occupant_eq_directory :
    t.occupant p = .directory ↔ p = ["/"] ∨ p.all (· = "..") ∨ p ∈ t.dirs := by
  rw [occupant]
  split
  · next h => exact ⟨fun _ => h, fun _ => rfl⟩
  · next h =>
    refine ⟨fun hn => ?_, fun hn => absurd hn h⟩
    cases hl : t.files.lookup p <;> rw [hl] at hn <;> cases hn

theorem occupant_of_file (hd : t.occupant p ≠ .directory) (hf : t.files.lookup p = some content) :
    t.occupant p = .file content := by
  rw [occupant, if_neg fun h => hd (occupant_eq_directory.mpr h), hf]
  rfl

theorem follow_congr (hd : t'.dirs = t.dirs) {names : List String}
    (h : t.follow p names = .ok q) : t'.follow p names = .ok q := by
  induction names generalizing p with
  | nil => exact h
  | cons name names ih =>
    rw [follow] at h ⊢
    split at h
    · cases h
    · cases h
    · next hdir =>
      have hdir' : t'.occupant p = .directory := by
        rw [occupant_eq_directory, hd, ← occupant_eq_directory]
        exact hdir
      rw [hdir']
      split at h
      · cases h
      · next hlen =>
        dsimp only
        rw [if_neg hlen]
        exact ih h

theorem place_eq (path : String) (t : FileTree) :
    t.place path =
      if path.toList.contains '\x00' then .error .nulInName
      else if path = "" then .error .notFound
      else if 4096 ≤ path.utf8ByteSize then .error .nameTooLong
      else t.follow (Place.origin path) (Path.names path) := by
  rw [place]
  split_ifs <;> rfl

theorem follow_of_place (h : t.place path = .ok p) :
    t.follow (Place.origin path) (Path.names path) = .ok p := by
  rw [place_eq] at h
  split_ifs at h
  exact h

theorem place_congr (hd : t'.dirs = t.dirs) (h : t.place path = .ok p) : t'.place path = .ok p := by
  have hfollow := follow_congr hd (follow_of_place h)
  rw [place_eq] at h ⊢
  split_ifs at h ⊢
  exact hfollow

theorem getLast?_of_follow {names : List String} (hdot : name ≠ ".") (hup : name ≠ "..")
    (h : t.follow p (names ++ [name]) = .ok q) : q.getLast? = some name := by
  induction names generalizing p with
  | nil =>
    rw [List.nil_append, follow] at h
    split at h
    · cases h
    · cases h
    · split at h
      · cases h
      · cases h
        rw [Place.enter, if_neg hdot, if_neg hup, List.getLast?_concat]
  | cons first names ih =>
    rw [List.cons_append, follow] at h
    split at h
    · cases h
    · cases h
    · split at h
      · cases h
      · exact ih h

theorem place_queueFile_injective {dir pre : String} {i j : Nat}
    (hi : t.place (Path.queueFile dir pre i) = .ok p)
    (hj : t.place (Path.queueFile dir pre j) = .ok p) : i = j := by
  obtain ⟨front, last, hnames⟩ := Path.names_queueFile dir pre
  have hend : ∀ index, t.place (Path.queueFile dir pre index) = .ok p →
      p.getLast? = some (String.ofList (last ++ Path.ending index)) := by
    intro index h
    have hlong : ∀ short : String, short.length < 4 →
        String.ofList (last ++ Path.ending index) ≠ short := by
      rintro short hs rfl
      simp only [String.length_ofList, Path.ending, List.length_append, List.length_cons] at hs
      omega
    have hfollow := follow_of_place h
    rw [hnames] at hfollow
    exact getLast?_of_follow (hlong _ (by decide)) (hlong _ (by decide)) hfollow
  have heq := (hend i hi).symm.trans (hend j hj)
  rw [Option.some.injEq, String.ofList_inj] at heq
  exact Path.ending_injective (List.append_cancel_left heq)

theorem create_eq_ok {place : Place} (h : t.create path = .ok (place, t')) :
    t.place path = .ok place ∧ t.occupant place ≠ .directory ∧ t' = t.write place [] := by
  rw [create] at h
  cases hp : t.place path with
  | error e =>
    rw [hp] at h
    cases h
  | ok p =>
    rw [hp] at h
    simp only [bind, Except.bind] at h
    split at h
    · cases h
    · next hdir =>
      cases h
      exact ⟨rfl, hdir, rfl⟩

end FileTree

section Sinks

variable {dir pre : String} {count index : Nat} {t t' : FileTree} {sinks : List FileSink}

theorem createFrom_eq_ok (h : createFrom dir pre count index t = (.ok sinks, t')) :
    t'.dirs = t.dirs ∧ sinks.length = count ∧ ∀ k s, sinks[k]? = some s →
      t.place (Path.queueFile dir pre (index + k)) = .ok s.place ∧
      t.occupant s.place ≠ .directory ∧ s.pieces = [] := by
  induction count generalizing index t sinks with
  | zero =>
    cases h
    exact ⟨rfl, rfl, fun k s hs => by simp at hs⟩
  | succ count ih =>
    rw [createFrom] at h
    dsimp only at h
    split at h
    · cases h
    · next place t₁ hcreate =>
      obtain ⟨hplace, hdir, rfl⟩ := FileTree.create_eq_ok hcreate
      obtain ⟨answer, t₂, hrest⟩ : ∃ answer t₂,
          createFrom dir pre count (index + 1) (t.write place []) = (answer, t₂) := ⟨_, _, rfl⟩
      rw [hrest] at h
      cases answer with
      | error e => cases h
      | ok rest =>
        cases h
        obtain ⟨hdirs, hlen, hsinks⟩ := ih hrest
        refine ⟨hdirs, congrArg Nat.succ hlen, fun k s hs => ?_⟩
        cases k with
        | zero =>
          cases hs
          exact ⟨hplace, hdir, rfl⟩
        | succ k =>
          obtain ⟨hp, hd, hnone⟩ := hsinks k s hs
          rw [Nat.add_right_comm] at hp
          refine ⟨FileTree.place_congr (t := t.write place []) rfl hp, fun hn => hd ?_, hnone⟩
          rw [FileTree.occupant_eq_directory] at hn ⊢
          exact hn

theorem nodup_places (h : createSinks dir pre count t = (.ok sinks, t')) :
    (sinks.map FileSink.place).Nodup := by
  obtain ⟨-, -, hsinks⟩ := createFrom_eq_ok h
  refine List.pairwise_iff_getElem.mpr fun i j hi hj hij heq => ?_
  rw [List.length_map] at hi hj
  rw [List.getElem_map, List.getElem_map] at heq
  have hplace := (hsinks i _ (List.getElem?_eq_getElem hi)).1
  rw [heq] at hplace
  have hsame := FileTree.place_queueFile_injective hplace
    (hsinks j _ (List.getElem?_eq_getElem hj)).1
  omega

theorem dirs_closeSinks (sinks : List FileSink) (t : FileTree) :
    (closeSinks sinks t).dirs = t.dirs := by
  induction sinks generalizing t with
  | nil => rfl
  | cons s sinks ih => exact ih (s.close t)

theorem lookup_closeSinks_of_notMem {p : Place} (hp : p ∉ sinks.map FileSink.place)
    (t : FileTree) : (closeSinks sinks t).files.lookup p = t.files.lookup p := by
  induction sinks generalizing t with
  | nil => rfl
  | cons s sinks ih =>
    rw [List.map_cons, List.mem_cons, not_or] at hp
    exact (ih hp.2 (s.close t)).trans ((FileTree.lookup_write _ _ _ _).trans (if_neg hp.1))

theorem lookup_closeSinks {s : FileSink} (hapart : (sinks.map FileSink.place).Nodup)
    (hs : s ∈ sinks) (t : FileTree) : (closeSinks sinks t).files.lookup s.place = some s.content := by
  induction sinks generalizing t with
  | nil => cases hs
  | cons first sinks ih =>
    obtain ⟨hfirst, hapart⟩ := List.nodup_cons.mp hapart
    cases hs with
    | head =>
      refine (lookup_closeSinks_of_notMem hfirst (s.close t)).trans ?_
      exact (FileTree.lookup_write _ _ _ _).trans (if_pos rfl)
    | tail _ hs => exact ih hapart hs (first.close t)

theorem find_closeSinks {sinks' : List FileSink} {i : Nat} {s : FileSink}
    (h : createSinks dir pre count t = (.ok sinks, t'))
    (hplaces : sinks'.map FileSink.place = sinks.map FileSink.place) (hs : sinks'[i]? = some s) :
    (closeSinks sinks' t').find (Path.queueFile dir pre i) = .ok (.file s.content) := by
  obtain ⟨hdirs, -, hsinks⟩ := createFrom_eq_ok h
  have hplace := congrArg (·[i]?) hplaces
  simp only [List.getElem?_map, hs, Option.map_some] at hplace
  obtain ⟨s₀, hs₀, heq⟩ := Option.map_eq_some_iff.mp hplace.symm
  obtain ⟨hp, hdir, -⟩ := hsinks i s₀ hs₀
  rw [Nat.zero_add, heq] at hp
  rw [heq] at hdir
  have hdirs' := (dirs_closeSinks sinks' t').trans hdirs
  have hfile : (closeSinks sinks' t').occupant s.place = .file s.content := by
    refine FileTree.occupant_of_file (fun hn => hdir ?_)
      (lookup_closeSinks (hplaces ▸ nodup_places h) (List.mem_of_getElem? hs) t')
    rw [FileTree.occupant_eq_directory, hdirs'] at hn
    exact FileTree.occupant_eq_directory.mpr hn
  rw [FileTree.find, FileTree.place_congr hdirs' hp]
  simp only [bind, Except.bind, hfile]

end Sinks

end DmaBurst
