/-
`Proofs/Engine/Reading.lean` -- the reader of reports accepts their spellings and nothing else.

This is where the parts come together. `Proofs/Engine/Entries.lean` proves of each kind of entry
that it is read as it is spelled, before anything that ends it. What is added here is the document:
blanks around the directory, and nothing after them. The result is an equivalence over all byte
strings (`Report.ofBytes_eq_ok_iff_spelling`), so a question about what the reader accepts is from
now on one about texts.

The first use of it is about documents that are not whole. An engine may be stopped while it writes,
and a document that was cut short should not be taken for a smaller report. It never is. The
directory ends with its own bracket, so no proper beginning of a document is one; a blank at its end
is the only thing that can be cut off or added without a difference. Neither direction looks at
where the cut is. That a cut could fall inside a string, a number or a value that is passed over
makes no case of its own.
-/
import UpgradeScan.Proofs.Engine.Entries

set_option autoImplicit false

namespace UpgradeScan

open UpgradeScan.JsonText
open UpgradeScan.EngineText

/-! ## 1. Documents and their spellings

From the directory to the document. -/

/-- What is read from a document is spelled by it. -/
theorem Report.ofBytes_sound {b : Bytes} {r : Report} (h : Report.ofBytes b = .ok r) :
    Spelling b r := by
  unfold Report.ofBytes at h
  split at h
  · cases h
  · next r' t hread =>
    split at h
    · next hend =>
      obtain rfl := Except.ok.inj h
      obtain ⟨w, u, hw, hu, rfl⟩ := reads_directory.sound hread
      exact ⟨w, u, t, hw, skipSpace_eq_nil_iff.mp hend, hu, rfl⟩
    · cases h

/-- What a document spells is read from it. -/
theorem Report.ofBytes_complete {b : Bytes} {r : Report} (h : Spelling b r) :
    Report.ofBytes b = .ok r := by
  obtain ⟨w, t, w', hw, hw', ht, rfl⟩ := h
  rw [Report.ofBytes, reads_directory.complete ht hw (ends_of_blanks hw')]
  exact if_pos (skipSpace_eq_nil_iff.mpr hw')

/-- **The wire format.** A document is accepted as a report exactly when it spells the report:
whatever the order of its members, whatever other members stand among them, and in whichever of
the two forms each entry is given. -/
theorem Report.ofBytes_eq_ok_iff_spelling (b : Bytes) (r : Report) :
    Report.ofBytes b = .ok r ↔ Spelling b r :=
  ⟨Report.ofBytes_sound, Report.ofBytes_complete⟩

/-! ## 2. Cut and padded documents

What may follow a document, and what may be left of it. -/

/-- Only blanks may follow a document, and they change nothing. -/
theorem Report.ofBytes_append_eq_ok_iff {b : Bytes} {r : Report} (h : Report.ofBytes b = .ok r)
    (s : Bytes) (r' : Report) : Report.ofBytes (b ++ s) = .ok r' ↔ Blanks s ∧ r' = r := by
  obtain ⟨w, t, w', hw, hw', ht, rfl⟩ := Report.ofBytes_sound h
  rw [List.append_assoc, List.append_assoc, Report.ofBytes, readDirectory_complete ht hw]
  dsimp only
  rw [skipSpace_append s hw']
  constructor
  · intro hread
    split at hread
    · next hs =>
      exact ⟨skipSpace_eq_nil_iff.mp hs, (Except.ok.inj hread).symm⟩
    · cases hread
  · rintro ⟨hs, rfl⟩
    rw [if_pos (skipSpace_eq_nil_iff.mpr hs)]

/-- A shorter document at the start of another one lacks blanks only. -/
theorem Report.blanks_of_prefix {p s : Bytes} {r r' : Report} (hp : Report.ofBytes p = .ok r)
    (h : Report.ofBytes (p ++ s) = .ok r') : Blanks s :=
  ((Report.ofBytes_append_eq_ok_iff hp s r').mp h).1

/-- **No document is a part of another.** Of a document that does not end with a blank, nothing
shorter is accepted: not when it is cut inside a string, a number, a value that is passed over, or
between two members. What is added to it is accepted when it is blank, and then the report is the
same. -/
theorem Report.ofBytes_cut_or_padded {b : Bytes} {r : Report} (h : Report.ofBytes b = .ok r)
    (hlast : ∀ c ∈ b.getLast?, isSpace c = false) :
    (∀ p, p <+: b → p ≠ b → ∃ e, Report.ofBytes p = .error e) ∧
    ∀ s r', Report.ofBytes (b ++ s) = .ok r' ↔ Blanks s ∧ r' = r := by
  constructor
  · intro p hprefix hne
    obtain ⟨s, rfl⟩ := hprefix
    have hs : s ≠ [] := by
      rintro rfl
      exact hne (List.append_nil p).symm
    cases hread : Report.ofBytes p with
    | error e => exact ⟨e, rfl⟩
    | ok r' =>
      -- the last byte that was cut off is a blank
      have hblank := Report.blanks_of_prefix hread h (s.getLast hs) (List.getLast_mem hs)
      have hend : s.getLast hs ∈ (p ++ s).getLast? := by
        rw [List.getLast?_append_of_ne_nil p hs, List.getLast?_eq_some_getLast hs]
        rfl
      rw [hlast _ hend] at hblank
      cases hblank
  · exact Report.ofBytes_append_eq_ok_iff h

/-- A document with a member that is passed over: cut inside the number of that member it is
refused, with a line end behind it nothing changes, and with another bracket it is refused. -/
theorem Report.ofBytes_cut_or_padded_object :
    let b := Text.Utf8.encode "\x7b\"path\":\"/s\",\"cost\":[1e9]\x7d".toList
    Report.ofBytes b = .ok ⟨⟨"/s"⟩, []⟩ ∧ (∀ c ∈ b.getLast?, isSpace c = false) ∧
    (∃ e, Report.ofBytes (b.take 23) = .error e) ∧
    Report.ofBytes (b ++ [0x0A]) = .ok ⟨⟨"/s"⟩, []⟩ ∧
    ∀ r, Report.ofBytes (b ++ [0x7D]) ≠ .ok r := by
  intro b
  have hread : Report.ofBytes b = .ok ⟨⟨"/s"⟩, []⟩ := by decide +kernel
  have hlast : ∀ c ∈ b.getLast?, isSpace c = false := by
    have hbracket : b.getLast? = some 0x7D := by decide +kernel
    intro c hc
    rw [hbracket, Option.mem_some_iff] at hc
    rw [← hc]
    decide
  obtain ⟨hcut, hadded⟩ := Report.ofBytes_cut_or_padded hread hlast
  refine ⟨hread, hlast, hcut _ (List.take_prefix 23 b) (by decide +kernel), ?_, ?_⟩
  · refine (hadded [0x0A] _).mpr ⟨fun c hc => ?_, rfl⟩
    rw [List.mem_singleton.mp hc]
    decide
  · intro r hr
    have hblank := ((hadded [0x7D] r).mp hr).1 0x7D List.mem_cons_self
    cases hblank

end UpgradeScan
