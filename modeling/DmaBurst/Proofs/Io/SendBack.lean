import DmaBurst.Proofs.Io.QueueFile
import DmaBurst.Proofs.Io.Reader

namespace DmaBurst

theorem Path.queueFile_injective (dir pre : String) : Function.Injective (queueFile dir pre) := by
  intro i j h
  obtain ⟨front, hpath⟩ := toList_queueFile dir pre
  have hlist := congrArg String.toList h
  rw [hpath, hpath] at hlist
  exact ending_injective (List.append_cancel_left hlist)

namespace FileTree

variable {t t' : FileTree} {p : Place} {path : String}

theorem create_eq (hplace : t.place path = .ok p) (hd : t.occupant p ≠ .directory) :
    t.create path = .ok (p, t.write p []) := by
  rw [create, hplace]
  simp only [bind, Except.bind]

theorem occupant_congr (hd : t'.dirs = t.dirs) (hf : t'.files.lookup p = t.files.lookup p) :
    t'.occupant p = t.occupant p := by
  rw [occupant, occupant, hd, hf]

/-- The files of the queues `index` and on can be created: their directory is there, and no
directory bears one of their names. -/
def Free (t : FileTree) (dir pre : String) (count index : Nat) : Prop :=
  ∀ k, k < count → ∃ p, t.place (Path.queueFile dir pre (index + k)) = .ok p ∧
    t.occupant p ≠ .directory

theorem Free.tail {dir pre : String} {count index : Nat} (h : t.Free dir pre (count + 1) index)
    (hd : t'.dirs = t.dirs) : t'.Free dir pre count (index + 1) := by
  intro k hk
  obtain ⟨p, hplace, hdir⟩ := h (k + 1) (by omega)
  rw [← Nat.add_assoc, Nat.add_right_comm] at hplace
  refine ⟨p, place_congr hd hplace, ?_⟩
  rw [ne_eq, occupant_eq_directory, hd, ← occupant_eq_directory]
  exact hdir

end FileTree

section Create

variable {dir pre : String} {count index : Nat} {t t' : FileTree} {sinks : List FileSink}

theorem exists_createFrom (h : t.Free dir pre count index) :
    ∃ sinks t', createFrom dir pre count index t = (.ok sinks, t') := by
  induction count generalizing index t with
  | zero => exact ⟨[], t, rfl⟩
  | succ count ih =>
    obtain ⟨p, hplace, hdir⟩ := h 0 (Nat.succ_pos count)
    have htail : (t.write p []).Free dir pre count (index + 1) := h.tail rfl
    obtain ⟨sinks, t', hrest⟩ := ih htail
    rw [Nat.add_zero] at hplace
    rw [createFrom]
    dsimp only
    rw [FileTree.create_eq hplace hdir]
    dsimp only
    rw [hrest]
    exact ⟨_, _, rfl⟩

theorem lookup_createFrom {p : Place} (h : createFrom dir pre count index t = (.ok sinks, t'))
    (hp : p ∉ sinks.map FileSink.place) : t'.files.lookup p = t.files.lookup p := by
  induction count generalizing index t sinks with
  | zero =>
    cases h
    rfl
  | succ count ih =>
    rw [createFrom] at h
    dsimp only at h
    split at h
    · cases h
    · next place t₁ hcreate =>
      obtain ⟨-, -, rfl⟩ := FileTree.create_eq_ok hcreate
      obtain ⟨answer, t₂, hrest⟩ : ∃ answer t₂,
          createFrom dir pre count (index + 1) (t.write place []) = (answer, t₂) := ⟨_, _, rfl⟩
      rw [hrest] at h
      cases answer with
      | error e => cases h
      | ok rest =>
        cases h
        rw [List.map_cons, List.mem_cons, not_or] at hp
        exact (ih hrest hp.2).trans ((FileTree.lookup_write _ _ _ _).trans (if_neg hp.1))

end Create

section Pieces

def writeAt : List (Nat × Bytes) → List FileSink → List FileSink
  | [], sinks => sinks
  | (i, piece) :: writes, sinks => writeAt writes (sinks.modify i fun s => (writeAll piece s).2)

def piecesFor (i : Nat) (writes : List (Nat × Bytes)) : List Bytes :=
  (writes.filter (·.1 = i)).map Prod.snd

variable {writes : List (Nat × Bytes)} {sinks : List FileSink}

/-- A sink is left as if its own pieces were the only ones. -/
theorem getElem?_writeAt (writes : List (Nat × Bytes)) (sinks : List FileSink) (i : Nat) :
    (writeAt writes sinks)[i]? = sinks[i]?.map fun s => (writeEach (piecesFor i writes) s).2 := by
  induction writes generalizing sinks with
  | nil =>
    cases h : sinks[i]? <;> simp [writeAt, piecesFor, writeEach, h]
  | cons first writes ih =>
    obtain ⟨j, piece⟩ := first
    rw [writeAt, ih, List.getElem?_modify]
    by_cases hj : j = i
    · subst hj
      cases sinks[j]? with
      | none => rfl
      | some s => simp [piecesFor, writeEach, writeAll_file]
    · simp [piecesFor, hj]

theorem map_place_writeAt (writes : List (Nat × Bytes)) (sinks : List FileSink) :
    (writeAt writes sinks).map FileSink.place = sinks.map FileSink.place := by
  refine List.ext_getElem? fun i => ?_
  rw [List.getElem?_map, List.getElem?_map, getElem?_writeAt, Option.map_map]
  exact congrArg (Option.map · _) (funext fun s => FileSink.place_writeEach _ s)

theorem content_writeAt {i : Nat} {s : FileSink} (hs : (writeAt writes sinks)[i]? = some s)
    (hnew : ∀ s ∈ sinks, s.pieces = []) : s.content = (piecesFor i writes).flatten := by
  rw [getElem?_writeAt] at hs
  obtain ⟨s₀, hs₀, rfl⟩ := Option.map_eq_some_iff.mp hs
  have hok := (writeEach_accepts (s := s₀) trivial (piecesFor i writes)).1
  obtain ⟨p, -, hstored, hall⟩ := writeEach_stored (s := s₀) (Prod.ext hok rfl)
  cases hall rfl
  refine hstored.trans ?_
  have hempty : s₀.content = [] := by
    rw [FileSink.content, hnew s₀ (List.mem_of_getElem? hs₀)]
    rfl
  exact congrArg (· ++ _) hempty

end Pieces

theorem openFrom_eq {dir pre : String} {t : FileTree} {contents : Nat → Bytes} (packetLen : Nat)
    {count index : Nat} (h : ∀ k, k < count →
      t.find (Path.queueFile dir pre (index + k)) = .ok (.file (contents (index + k)))) :
    openFrom dir pre packetLen t count index =
      .ok ((List.range' index count).map fun i => ⟨.file (contents i), packetLen⟩) := by
  induction count generalizing index with
  | zero => rfl
  | succ count ih =>
    have hfirst := h 0 (Nat.succ_pos count)
    have hmore : ∀ k, k < count → t.find (Path.queueFile dir pre (index + 1 + k)) =
        .ok (.file (contents (index + 1 + k))) := by
      intro k hk
      rw [Nat.add_right_comm]
      exact h (k + 1) (by omega)
    rw [Nat.add_zero] at hfirst
    rw [openFrom, openSource, hfirst, ih hmore]
    rfl

/-- Whatever was in the files of the queues, and in whatever order pieces are written to the sinks,
once these are closed the source of each queue hands out the pieces of that queue and nothing else.
Any other place holds what it held before. -/
theorem written_files_sent_back {t : FileTree} {dir pre : String} {count packetLen : Nat}
    (hfree : t.Free dir pre count 0) (hp : 0 < packetLen) {contents : Nat → Bytes}
    {writes : List (Nat × Bytes)}
    (hwrites : ∀ i, i < count → (piecesFor i writes).flatten = contents i) :
    Function.Injective (Path.queueFile dir pre) ∧
      ∃ sinks t₁ t₂ sources, createSinks dir pre count t = (.ok sinks, t₁) ∧
        t₂ = closeSinks (writeAt writes sinks) t₁ ∧
        openSources dir pre count packetLen t₂ = .ok sources ∧
        sinks.length = count ∧ sources.length = count ∧
        (∀ i s, sources[i]? = some s → ∀ buffers : Nat → Bytes, (∀ k, buffers k ≠ []) →
          ∃ packets, packets.flatten = contents i ∧ s.Delivers buffers packets) ∧
        ∀ p, (∀ i, i < count → t.place (Path.queueFile dir pre i) ≠ .ok p) →
          t₂.occupant p = t.occupant p := by
  refine ⟨Path.queueFile_injective dir pre, ?_⟩
  obtain ⟨sinks, t₁, hcreate⟩ := exists_createFrom hfree
  obtain ⟨hdirs, hlen, hsinks⟩ := createFrom_eq_ok hcreate
  have hplaces := map_place_writeAt writes sinks
  have hnew : ∀ s ∈ sinks, s.pieces = [] := by
    intro s hs
    obtain ⟨k, hk⟩ := List.mem_iff_getElem?.mp hs
    exact (hsinks k s hk).2.2
  have hfind : ∀ k, k < count → (closeSinks (writeAt writes sinks) t₁).find
      (Path.queueFile dir pre (0 + k)) = .ok (.file (contents (0 + k))) := by
    intro k hk
    have hlen' : (writeAt writes sinks).length = count := by
      rw [← hlen, ← List.length_map (f := FileSink.place), hplaces, List.length_map]
    have hs := List.getElem?_eq_getElem (hlen'.symm ▸ hk)
    rw [Nat.zero_add, ← hwrites k hk, ← content_writeAt hs hnew]
    exact find_closeSinks hcreate hplaces hs
  have hopen := openFrom_eq packetLen hfind
  refine ⟨sinks, t₁, _, _, hcreate, rfl, hopen, hlen, by simp, ?_, ?_⟩
  · intro i s hs buffers hb
    obtain ⟨j, hj, rfl⟩ := Option.map_eq_some_iff.mp ((List.getElem?_map ..).symm.trans hs)
    obtain ⟨-, rfl⟩ := List.getElem?_eq_some_iff.mp hj
    rw [List.getElem_range', Nat.zero_add, Nat.one_mul]
    have hs : LawfulReader.sound (FileReader.file (contents i)) := ⟨contents i, rfl⟩
    exact ReaderSource.exists_delivers (s := ⟨FileReader.file (contents i), packetLen⟩) hs hp hb
  · intro p hother
    have hnone : p ∉ sinks.map FileSink.place := by
      intro hmem
      obtain ⟨s, hs, rfl⟩ := List.mem_map.mp hmem
      obtain ⟨k, hk⟩ := List.mem_iff_getElem?.mp hs
      obtain ⟨hlt, -⟩ := List.getElem?_eq_some_iff.mp hk
      have hplace := (hsinks k s hk).1
      rw [Nat.zero_add] at hplace
      exact hother k (hlen ▸ hlt) hplace
    refine FileTree.occupant_congr ((dirs_closeSinks _ _).trans hdirs) ?_
    exact (lookup_closeSinks_of_notMem (hplaces ▸ hnone) t₁).trans (lookup_createFrom hcreate hnone)

def outTree : FileTree where
  files := [(["out", "rx0.dat"], [7, 7, 7, 7, 7, 7]), (["out", "notes"], [1])]
  dirs := [["out"]]

theorem outTree_sent_back :
    outTree.Free "out" "rx" 2 0 ∧
      ∃ sinks t₁ sources, createSinks "out" "rx" 2 outTree = (.ok sinks, t₁) ∧
        openSources "out" "rx" 2 2
          (closeSinks (writeAt [(0, [1, 2]), (1, [9]), (0, [3])] sinks) t₁) = .ok sources ∧
        sources.length = 2 ∧
        ∀ s, sources[0]? = some s → ∃ packets, packets.flatten = [1, 2, 3] ∧
          s.Delivers (fun _ => [0, 0, 0, 0]) packets := by
  have hfree : outTree.Free "out" "rx" 2 0 := by
    have hplace : ∀ k, k < 2 → outTree.place (Path.queueFile "out" "rx" (0 + k)) =
        .ok ["out", "rx" ++ toString k ++ ".dat"] := by decide +kernel
    intro k hk
    refine ⟨_, hplace k hk, ?_⟩
    rw [ne_eq, FileTree.occupant_eq_directory]
    revert k
    decide +kernel
  have hpos : 0 < 2 := by decide
  have hwrites : ∀ i, i < 2 → (piecesFor i [(0, [1, 2]), (1, [9]), (0, [3])]).flatten =
      if i = 0 then [1, 2, 3] else [9] := by decide
  obtain ⟨-, sinks, t₁, _, sources, hcreate, rfl, hopen, -, hlen, hdeliver, -⟩ :=
    written_files_sent_back hfree hpos hwrites
  exact ⟨hfree, sinks, t₁, sources, hcreate, hopen, hlen,
    fun s hs => hdeliver 0 s hs _ fun _ => by simp⟩

end DmaBurst
