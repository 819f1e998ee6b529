import ThreeAddress.Command.FileSystem

/-!
# Files that keep what is written

What a program may count on when it writes a file: opening a path empties the file that it leads to, and makes it if it
is not there; what is put there then stands in the file as far as there is room; and no other file is touched.

* `FileSystem.Lawful` — a system that keeps to this;
* `FileSystem.Lawful.writeText_file`, `writeText_written`, `writeText_others` — a text that is written to a file;
* `FileSystem.Lawful.writeText_untouched` — a text that is written to a device, or nowhere.
-/

namespace ThreeAddress

/-- Bytes are decoded to the text that they encode. -/
theorem fromUTF8?_eq_some_iff {bytes : ByteArray} {text : String} :
    String.fromUTF8? bytes = some text ↔ bytes = text.toUTF8 := by
  unfold String.fromUTF8?
  constructor
  · intro h
    split at h
    · rw [← Option.some.inj h]
      rfl
    · cases h
  · rintro rfl
    exact dif_pos text.isValidUTF8

theorem textOf?_eq_some_iff {bytes : List UInt8} {text : String} : textOf? bytes = some text ↔ bytes = bytesOf text := by
  rw [textOf?, fromUTF8?_eq_some_iff, bytesOf]
  constructor
  · intro h
    rw [← h]
  · rintro rfl
    rfl

@[simp]
theorem FilePath.text?_ofText (text : String) : (FilePath.ofText text).text? = some text :=
  textOf?_eq_some_iff.2 rfl

namespace FileSystem

/-- The documented behaviour of opening, writing and reading files.  That no file is made or changed if opening fails
(`refused`) is in the words of POSIX; that a file is made or emptied if it succeeds (`opened`) is what a program asks for
that creates a file.  Nothing is said about which paths can be opened, and how many bytes can be put. -/
structure Lawful (S : FileSystem) : Prop where
  refused : ∀ {s s' : S.State} {path : FilePath} {reason : String}, S.create s path = (s', .error reason) →
    S.contents? s' = S.contents? s
  opened : ∀ {s s' : S.State} {path : FilePath} {f : S.File}, S.create s path = (s', .ok (.file f)) →
    S.leadsTo? s' path = some f ∧ S.contents? s' f = some .empty ∧ ∀ g, g ≠ f → S.contents? s' g = S.contents? s g
  opened_device : ∀ {s s' : S.State} {path : FilePath} {d : S.Device}, S.create s path = (s', .ok (.device d)) →
    S.contents? s' = S.contents? s
  put_file : ∀ {s : S.State} {f : S.File} {old : ByteArray} (bytes : ByteArray), S.contents? s f = some old →
    ∃ count, S.contents? (S.put s (.file f) bytes).state f = some (old ++ bytes.extract 0 count) ∧
      ((S.put s (.file f) bytes).failure = none → bytes.size ≤ count)
  put_others : ∀ (s : S.State) {f g : S.File} (bytes : ByteArray), g ≠ f →
    S.contents? (S.put s (.file f) bytes).state g = S.contents? s g
  put_leadsTo : ∀ {s : S.State} {path : FilePath} {f : S.File} (bytes : ByteArray), S.leadsTo? s path = some f →
    S.leadsTo? (S.put s (.file f) bytes).state path = some f
  put_device : ∀ (s : S.State) (d : S.Device) (bytes : ByteArray),
    S.contents? (S.put s (.device d) bytes).state = S.contents? s
  read : ∀ {s : S.State} {path : FilePath} {f : S.File} {bytes : ByteArray}, S.leadsTo? s path = some f →
    S.read s path = .ok bytes → S.contents? s f = some bytes

variable {S : FileSystem} {s s' : S.State} {path : FilePath} {text : String} {f g : S.File}

/-- The bytes of a text are read as that text. -/
theorem readText_of_read (h : S.read s path = .ok text.toUTF8) : S.readText s path = .ok text := by
  rw [readText, h]
  simp only [fromUTF8?_eq_some_iff.2 rfl]

/-- What is written goes where the path leads that has been opened. -/
theorem writeText_eq_put {outlet : Outlet S.File S.Device} (h : S.create s path = (s', .ok outlet)) :
    S.writeText s path text = S.put s' outlet text.toUTF8 := by
  rw [writeText, h]

theorem writeText_refused {reason : String} (h : S.create s path = (s', .error reason)) :
    S.writeText s path text = ⟨s', "", "", some reason⟩ := by
  rw [writeText, h]

/-- A text can be written only to a path that can be opened. -/
theorem exists_outlet_of_writeText (h : (S.writeText s path text).failure = none) :
    ∃ outlet, (S.create s path).2 = .ok outlet := by
  rcases hcreate : S.create s path with ⟨s', reason | outlet⟩
  · rw [writeText_refused hcreate] at h
    cases h
  · exact ⟨outlet, rfl⟩

namespace Lawful

variable (hS : S.Lawful)
include hS

/-- A file that is written holds the text, or a beginning of it. -/
theorem writeText_file (text : String) (h : (S.create s path).2 = .ok (.file f)) :
    ∃ count, S.contents? (S.writeText s path text).state f = some (text.toUTF8.extract 0 count) ∧
      ((S.writeText s path text).failure = none → text.toUTF8.size ≤ count) := by
  obtain ⟨s', hcreate⟩ : ∃ s', S.create s path = (s', .ok (.file f)) := ⟨_, Prod.ext rfl h⟩
  obtain ⟨-, hempty, -⟩ := hS.opened hcreate
  obtain ⟨count, hcontents, hall⟩ := hS.put_file text.toUTF8 hempty
  rw [ByteArray.empty_append] at hcontents
  rw [writeText_eq_put hcreate]
  exact ⟨count, hcontents, hall⟩

/-- A text is in the file if writing it does not fail. -/
theorem writeText_written (h : (S.create s path).2 = .ok (.file f))
    (hdone : (S.writeText s path text).failure = none) :
    S.contents? (S.writeText s path text).state f = some text.toUTF8 := by
  obtain ⟨count, hcontents, hall⟩ := hS.writeText_file text h
  rw [hcontents, ← Nat.max_eq_left (hall hdone), ByteArray.extract_zero_max_size]

theorem writeText_leadsTo (h : (S.create s path).2 = .ok (.file f)) :
    S.leadsTo? (S.writeText s path text).state path = some f := by
  obtain ⟨s', hcreate⟩ : ∃ s', S.create s path = (s', .ok (.file f)) := ⟨_, Prod.ext rfl h⟩
  rw [writeText_eq_put hcreate]
  exact hS.put_leadsTo text.toUTF8 (hS.opened hcreate).1

theorem writeText_others (h : (S.create s path).2 = .ok (.file f)) (hg : g ≠ f) :
    S.contents? (S.writeText s path text).state g = S.contents? s g := by
  obtain ⟨s', hcreate⟩ : ∃ s', S.create s path = (s', .ok (.file f)) := ⟨_, Prod.ext rfl h⟩
  rw [writeText_eq_put hcreate, hS.put_others s' text.toUTF8 hg]
  exact (hS.opened hcreate).2.2 g hg

/-- A text that goes to no file changes none. -/
theorem writeText_untouched (h : ∀ f, (S.create s path).2 ≠ .ok (.file f)) :
    S.contents? (S.writeText s path text).state = S.contents? s := by
  rcases hcreate : S.create s path with ⟨s', reason | f | d⟩
  · rw [writeText_refused hcreate]
    exact hS.refused hcreate
  · exact absurd (congrArg Prod.snd hcreate) (h f)
  · rw [writeText_eq_put hcreate, hS.put_device]
    exact hS.opened_device hcreate

/-- What is read as text from a file that holds a text is that text. -/
theorem readText_eq {text' : String} (hleads : S.leadsTo? s path = some f) (hfile : S.contents? s f = some text.toUTF8)
    (h : S.readText s path = .ok text') : text' = text := by
  unfold readText at h
  split at h
  · cases h
  · rename_i bytes hread
    have hbytes : bytes = text.toUTF8 := Option.some.inj ((hS.read hleads hread).symm.trans hfile)
    rw [fromUTF8?_eq_some_iff.2 hbytes] at h
    exact (Except.ok.inj h).symm

end Lawful

end FileSystem

end ThreeAddress
