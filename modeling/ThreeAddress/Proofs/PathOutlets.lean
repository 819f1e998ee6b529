import ThreeAddress.Command.Directory
import ThreeAddress.Proofs.LawfulFiles
import ThreeAddress.Proofs.TableView

/-!
# Where paths lead in the sandbox

A path leads to one outlet, and after bytes have been put there it leads there still.  So the sandbox is a system that
keeps what is written.

* `Directory.contents?_put`, `Sandbox.contents?_put` — a file that is put changes nothing under any other name;
* `Sandbox.outlet?_eq_ok`, `Sandbox.outlet?_eq_file_iff` — the paths that lead anywhere, and those to a file;
* `Sandbox.open?_put` — a path leads to the file that is put there, and `Sandbox.read_of_outlet` — gives its bytes;
* `sandbox_lawful` — what is written there is kept.
-/

namespace ThreeAddress

/-! ### Files that are put -/

namespace Directory

/-- Where the files of one name get other contents, only that name means others. -/
theorem lookup_replace (files : List (String × ByteArray)) (name : String) (bytes : ByteArray) (x : String) :
    (files.map fun f => if f.1 = name then (name, bytes) else f).lookup x =
      if x = name then (files.lookup x).map fun _ => bytes else files.lookup x := by
  induction files with
  | nil => simp
  | cons f files ih =>
    have hname : (if f.1 = name then (name, bytes) else f).1 = f.1 := by
      split
      · exact Eq.symm ‹_›
      · rfl
    rw [List.map_cons, List.lookup_cons, List.lookup_cons, hname, ih]
    by_cases hf : x = f.1
    · subst hf
      by_cases hx : f.1 = name <;> simp [hx]
    · rw [beq_false_of_ne hf]

/-- Only the contents under that name become others. -/
theorem contents?_put (d : Directory) (name : String) (bytes : ByteArray) (x : String) :
    (d.put name bytes).contents? x = if x = name then some bytes else d.contents? x := by
  unfold put
  split
  · rename_i hsome
    obtain ⟨old, hold⟩ := Option.isSome_iff_exists.1 hsome
    rw [contents?] at hold
    rw [contents?, lookup_replace]
    split
    · rename_i hx
      rw [hx, hold, Option.map_some]
    · rfl
  · rename_i hnone
    rw [Option.not_isSome_iff_eq_none, contents?] at hnone
    rw [contents?, List.lookup_append]
    split
    · rename_i hx
      rw [hx, hnone]
      simp
    · rename_i hx
      rw [List.lookup_cons, beq_false_of_ne hx, List.lookup_nil, Option.or_none, contents?]

/-- Where files lie below a name, they still do. -/
theorem isParent_put {d : Directory} {x : String} (h : d.isParent x = true) (name : String) (bytes : ByteArray) :
    (d.put name bytes).isParent x = true := by
  obtain ⟨f, hf, hx⟩ := List.any_eq_true.1 h
  unfold put
  split
  · refine List.any_eq_true.2 ⟨_, List.mem_map_of_mem hf, ?_⟩
    split
    · rename_i hname
      rwa [← hname]
    · exact hx
  · exact List.any_eq_true.2 ⟨f, List.mem_append_left _ hf, hx⟩

end Directory

namespace Sandbox

variable {b : Sandbox} {place : FilePlace} {path : String} {bytes : ByteArray}

theorem contents?_put (b : Sandbox) (bytes : ByteArray) (place x : FilePlace) :
    (b.put bytes place).contents? x = if x = place then some bytes else b.contents? x := by
  obtain ⟨side, name⟩ := place
  obtain ⟨side', x⟩ := x
  cases side <;> cases side' <;> simp [put, contents?, Directory.contents?_put]

theorem isParent_put {x : FilePlace} (h : b.isParent x = true) (bytes : ByteArray) (place : FilePlace) :
    (b.put bytes place).isParent x = true := by
  obtain ⟨side, name⟩ := place
  obtain ⟨side', x⟩ := x
  cases side <;> cases side'
  case inside.inside => exact Directory.isParent_put h name bytes
  all_goals exact h

/-- A place where there is a file or nothing at all. -/
def HasRoom (b : Sandbox) (place : FilePlace) : Prop := (b.contents? place).isSome ∨ b.isParent place = false

theorem hasRoom_put (b : Sandbox) (bytes : ByteArray) (place : FilePlace) : (b.put bytes place).HasRoom place :=
  .inl (by rw [contents?_put, if_pos rfl, Option.isSome_some])

/-! ### Paths to files -/

/-- What is found under a name: a device, a file, a directory or nothing. -/
theorem find_cases (b : Sandbox) (s : Station) (x : String) :
    (∃ device, device? (s.place x) = some device ∧ b.find s x = .device device) ∨
      device? (s.place x) = none ∧
        ((b.contents? (s.place x)).isSome ∧ b.find s x = .file (s.place x) ∨
          b.contents? (s.place x) = none ∧ b.isParent (s.place x) = true ∧
            b.find s x = .directory { s with names := x :: s.names } ∨
          b.contents? (s.place x) = none ∧ b.isParent (s.place x) = false ∧ b.find s x = .nothing) := by
  unfold find
  cases device? (s.place x) with
  | some device => exact .inl ⟨device, rfl, rfl⟩
  | none =>
    refine .inr ⟨rfl, ?_⟩
    cases b.contents? (s.place x) with
    | some bytes => exact .inl ⟨rfl, rfl⟩
    | none =>
      cases b.isParent (s.place x) with
      | true => exact .inr (.inl ⟨rfl, rfl, rfl⟩)
      | false => exact .inr (.inr ⟨rfl, rfl, rfl⟩)

/-- What is a directory stays one when a file is put where there is room. -/
theorem find_put {s s' : Station} {x : String} (h : b.find s x = .directory s') (hroom : b.HasRoom place)
    (bytes : ByteArray) : (b.put bytes place).find s x = .directory s' := by
  rcases b.find_cases s x with ⟨device, -, hfind⟩ | ⟨hdevice, ⟨-, hfind⟩ | ⟨hnone, hparent, hfind⟩ | ⟨-, -, hfind⟩⟩
  · cases hfind.symm.trans h
  · cases hfind.symm.trans h
  · have hother : s.place x ≠ place := by
      rintro rfl
      rcases hroom with hsome | hempty
      · rw [hnone] at hsome
        cases hsome
      · rw [hparent] at hempty
        cases hempty
    have hstays : (b.put bytes place).contents? (s.place x) = none := by rw [contents?_put, if_neg hother, hnone]
    rw [← h, hfind, find, hdevice, hstays, isParent_put hparent]
    rfl
  · cases hfind.symm.trans h

theorem step_put {s s' : Station} {x : String} (h : b.step s x = .ok (.directory s')) (hroom : b.HasRoom place)
    (bytes : ByteArray) : (b.put bytes place).step s x = .ok (.directory s') := by
  unfold step at h ⊢
  split
  · rwa [if_pos (by assumption)] at h
  · rw [if_neg (by assumption)] at h
    split
    · rwa [if_pos (by assumption)] at h
    · rw [if_neg (by assumption)] at h
      split
      · rw [if_pos (by assumption)] at h
        cases h
      · rw [if_neg (by assumption), Except.ok.injEq] at h
        rw [find_put h hroom]

theorem follow_put {s s' : Station} {names : List String} (h : b.follow s names = .ok s') (hroom : b.HasRoom place)
    (bytes : ByteArray) : (b.put bytes place).follow s names = .ok s' := by
  induction names generalizing s with
  | nil => exact h
  | cons x more ih =>
    rw [follow] at h ⊢
    split at h
    · cases h
    · rename_i hstep
      rw [step_put hstep hroom]
      exact ih h
    · cases h
    · cases h

theorem locate_put {found : Station × Option String} (h : b.locate path = .ok found) (hroom : b.HasRoom place)
    (bytes : ByteArray) : (b.put bytes place).locate path = .ok found := by
  simp only [locate] at h ⊢
  split at h
  · cases h
  · rw [if_neg (by assumption)]
    split at h
    · cases h
    · rw [if_neg (by assumption)]
      obtain ⟨s, hfollow, rfl⟩ := Except.map_eq_ok h
      rw [follow_put hfollow hroom]
      rfl

/-- What a proper name leads to. -/
theorem step_proper (b : Sandbox) (s : Station) {x : String} (hdot : x ≠ ".") (hdots : x ≠ "..")
    (hsize : x.utf8ByteSize ≤ nameLimit) : b.step s x = .ok (b.find s x) := by
  rw [step, if_neg hdot, if_neg hdots, if_neg (Nat.not_lt.2 hsize)]

/-- A path leads somewhere only if its final name is a proper one, behind places that can be walked to. -/
theorem outlet?_eq_ok {o : Outlet FilePlace Device} (h : b.outlet? path = .ok o) : hasFinalSlash path = false ∧
    ∃ s x, b.locate path = .ok (s, some x) ∧ x ≠ "." ∧ x ≠ ".." ∧ x.utf8ByteSize ≤ nameLimit := by
  unfold outlet? at h
  cases hlocate : b.locate path with
  | error failure =>
    rw [hlocate] at h
    cases h
  | ok found =>
    rw [hlocate] at h
    simp only [bind, Except.bind] at h
    split at h
    · cases h
    · cases h
    · cases h
    · rename_i s x hdot hdots
      split at h
      · cases h
      · rename_i hslash
        refine ⟨Bool.eq_false_iff.2 hslash, s, x, rfl, hdot, hdots, ?_⟩
        by_contra hsize
        rw [step, if_neg hdot, if_neg hdots, if_pos (Nat.not_le.1 hsize)] at h
        cases h

/-- Where a name in a directory leads, by what is found there. -/
def outletAt (s : Station) (x : String) : Found → Except AccessFailure (Outlet FilePlace Device)
  | .directory _ => .error .isDirectory
  | .file place => .ok (.file place)
  | .device device => .ok (.device device)
  | .nothing => .ok (.file (s.place x))

/-- A path whose final name is a proper one leads where that name does. -/
theorem outlet?_of_locate {s : Station} {x : String} (hslash : hasFinalSlash path = false)
    (hlocate : b.locate path = .ok (s, some x)) (hdot : x ≠ ".") (hdots : x ≠ "..")
    (hsize : x.utf8ByteSize ≤ nameLimit) : b.outlet? path = outletAt s x (b.find s x) := by
  unfold outlet?
  rw [hlocate]
  simp only [bind, Except.bind, b.step_proper s hdot hdots hsize, hslash]
  cases b.find s x <;> rfl

/-- A path leads to a file if its final name is a proper one, of a place with room that is no device, in a directory
that the names before it lead to. -/
theorem outlet?_eq_file_iff : b.outlet? path = .ok (.file place) ↔
    hasFinalSlash path = false ∧ b.HasRoom place ∧ device? place = none ∧ ∃ s x, b.locate path = .ok (s, some x) ∧
      x ≠ "." ∧ x ≠ ".." ∧ x.utf8ByteSize ≤ nameLimit ∧ s.place x = place := by
  constructor
  · intro h
    obtain ⟨hslash, s, x, hlocate, hdot, hdots, hsize⟩ := outlet?_eq_ok h
    rw [outlet?_of_locate hslash hlocate hdot hdots hsize] at h
    rcases b.find_cases s x with ⟨device, -, hfind⟩ | ⟨hdevice, ⟨hsome, hfind⟩ | ⟨-, -, hfind⟩ | ⟨-, hempty, hfind⟩⟩
    all_goals
      rw [hfind] at h
      cases h
    · exact ⟨hslash, .inl hsome, hdevice, s, x, hlocate, hdot, hdots, hsize, rfl⟩
    · exact ⟨hslash, .inr hempty, hdevice, s, x, hlocate, hdot, hdots, hsize, rfl⟩
  · rintro ⟨hslash, hroom, hnone, s, x, hlocate, hdot, hdots, hsize, rfl⟩
    rw [outlet?_of_locate hslash hlocate hdot hdots hsize]
    rcases b.find_cases s x with
      ⟨device, hdevice, -⟩ | ⟨-, ⟨-, hfind⟩ | ⟨hempty, hparent, -⟩ | ⟨-, -, hfind⟩⟩
    · cases hdevice.symm.trans hnone
    · rw [hfind, outletAt]
    · rcases hroom with hsome | hfree
      · rw [hempty] at hsome
        cases hsome
      · cases hparent.symm.trans hfree
    · rw [hfind, outletAt]

/-- A path leads to the file that is put there. -/
theorem outlet?_put (h : b.outlet? path = .ok (.file place)) (bytes : ByteArray) :
    (b.put bytes place).outlet? path = .ok (.file place) := by
  obtain ⟨hslash, hroom, hdevice, s, x, hlocate, hproper⟩ := outlet?_eq_file_iff.1 h
  exact outlet?_eq_file_iff.2
    ⟨hslash, hasRoom_put b bytes place, hdevice, s, x, locate_put hlocate hroom bytes, hproper⟩

/-- Where a path leads to a file, what is read from it are the bytes of that file. -/
theorem read_of_outlet (h : b.outlet? path = .ok (.file place)) (hread : b.read path = .ok bytes) :
    b.contents? place = some bytes := by
  obtain ⟨hslash, hroom, hdevice, s, x, hlocate, hdot, hdots, hsize, rfl⟩ := outlet?_eq_file_iff.1 h
  unfold read at hread
  rw [hlocate] at hread
  simp only [bind, Except.bind, b.step_proper _ hdot hdots hsize, hslash] at hread
  rcases b.find_cases s x with
    ⟨device, hsome, -⟩ | ⟨-, ⟨hsome, hfind⟩ | ⟨-, -, hfind⟩ | ⟨-, -, hfind⟩⟩
  · cases hsome.symm.trans hdevice
  · obtain ⟨bytes', hbytes⟩ := Option.isSome_iff_exists.1 hsome
    simp only [hfind, hbytes, Option.getD_some] at hread
    cases hread
    exact hbytes
  all_goals
    rw [hfind] at hread
    cases hread

variable {p : FilePath}

theorem open?_eq_ok_iff {o : Outlet FilePlace Device} :
    b.open? p = .ok o ↔ ∃ text, p.text? = some text ∧ b.outlet? text = .ok o := by
  unfold open?
  cases p.text? with
  | none => exact iff_of_false nofun nofun
  | some text => exact ⟨fun h => ⟨text, rfl, h⟩, fun ⟨_, htext, h⟩ => Option.some.inj htext ▸ h⟩

theorem open?_put (h : b.open? p = .ok (.file place)) (bytes : ByteArray) :
    (b.put bytes place).open? p = .ok (.file place) := by
  obtain ⟨text, htext, houtlet⟩ := open?_eq_ok_iff.1 h
  exact open?_eq_ok_iff.2 ⟨text, htext, outlet?_put houtlet bytes⟩

theorem leadsTo?_eq_some_iff {room : Option Nat} :
    (sandbox room).leadsTo? b p = some place ↔ b.open? p = .ok (.file place) := by
  simp only [sandbox]
  cases b.open? p with
  | error failure => exact iff_of_false nofun nofun
  | ok outlet => cases outlet <;> simp

theorem readText_ofText {text name : String} (room : Option Nat) (h : b.read name = .ok text.toUTF8) :
    (sandbox room).readText b (.ofText name) = .ok text := by
  refine FileSystem.readText_of_read ?_
  simp only [sandbox, FilePath.text?_ofText, Option.elim_some, h]
  rfl

theorem open?_ofText (b : Sandbox) (name : String) : b.open? (.ofText name) = b.outlet? name := by
  rw [open?, FilePath.text?_ofText, Option.elim_some]

theorem create_error {failure : AccessFailure} (room : Option Nat) (h : b.open? p = .error failure) :
    ((sandbox room).create b p).2 = .error failure.message := by
  simp only [sandbox, h]

theorem create_file (room : Option Nat) (h : b.open? p = .ok (.file place)) :
    ((sandbox room).create b p).2 = .ok (.file place) := by
  simp only [sandbox, h]

theorem create_device {device : Device} (room : Option Nat) (h : b.open? p = .ok (.device device)) :
    ((sandbox room).create b p).2 = .ok (.device device) := by
  simp only [sandbox, h]

/-- Bytes that are put into a file stand behind those that were there, as many as there is room for. -/
theorem contents?_append {old : ByteArray} (room : Option Nat) (bytes : ByteArray)
    (h : b.contents? place = some old) :
    ∃ count, (b.append room bytes place).state.contents? place = some (old ++ bytes.extract 0 count) ∧
      ((b.append room bytes place).failure = none → bytes.size ≤ count) := by
  refine ⟨(room.map (min bytes.size)).getD bytes.size, ?_, fun hdone => ?_⟩
  · rw [append, contents?_put, if_pos rfl, h, Option.getD_some]
  · simp only [append] at hdone
    split at hdone
    · cases hdone
    · exact Nat.not_lt.1 ‹_›

end Sandbox

/-! ### The sandbox -/

/-- The sandbox keeps what is written. -/
theorem sandbox_lawful (room : Option Nat) : (sandbox room).Lawful where
  refused := by
    intro s s' path reason h
    simp only [sandbox] at h
    split at h <;> cases h
    rfl
  opened := by
    intro s s' path f h
    simp only [sandbox] at h
    split at h
    · cases h
    · rename_i hopen
      cases h
      exact ⟨Sandbox.leadsTo?_eq_some_iff.2 (Sandbox.open?_put hopen _),
        (s.contents?_put _ f f).trans (if_pos rfl), fun g hg => (s.contents?_put _ f g).trans (if_neg hg)⟩
    · cases h
  opened_device := by
    intro s s' path d h
    simp only [sandbox] at h
    split at h <;> cases h
    rfl
  put_file := fun bytes h => Sandbox.contents?_append room bytes h
  put_others := fun s f g _ hg => (s.contents?_put _ f g).trans (if_neg hg)
  put_leadsTo := fun _ h => Sandbox.leadsTo?_eq_some_iff.2 (Sandbox.open?_put (Sandbox.leadsTo?_eq_some_iff.1 h) _)
  put_device := by
    intro s d bytes
    cases d <;> rfl
  read := by
    intro s path f bytes hleads h
    obtain ⟨text, htext, houtlet⟩ := Sandbox.open?_eq_ok_iff.1 (Sandbox.leadsTo?_eq_some_iff.1 hleads)
    simp only [sandbox, htext, Option.elim_some] at h
    cases hread : s.read text with
    | error failure =>
      rw [hread] at h
      cases h
    | ok bytes' =>
      rw [hread] at h
      cases h
      exact Sandbox.read_of_outlet houtlet hread

end ThreeAddress
