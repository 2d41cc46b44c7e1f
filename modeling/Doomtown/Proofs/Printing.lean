import Doomtown.Proofs.Logging

/-!
# What a log prints

Whether an entry is printed is decided twice: when it comes, by mode and verbosity, and when the log
is flushed, by the verbosity alone for whatever was kept. A log that only prints has nothing to
flush, and a log that only keeps has printed nothing before, so each line comes out once. A log
that does both prints each line as it comes and all of them again when it is flushed
(`Log.flush_prints`).
-/

namespace Doomtown

namespace Log

/-- The entries that a verbosity lets through, as lines of a format. -/
def lines (v : Verbosity) (f : LogFormat) (entries : List LogEntry) : List String :=
  (entries.filter fun e => e.level.level ≤ v.level).map ({ format := f } : Log).lineOf

theorem lines_append (v : Verbosity) (f : LogFormat) (entries entries' : List LogEntry) :
    lines v f (entries ++ entries') = lines v f entries ++ lines v f entries' := by
  simp [lines]

/-! ## Settings -/

@[simp] theorem print_verbosity (l : Log) (e : LogEntry) :
    (l.print e).verbosity = l.verbosity := by
  unfold print
  split <;> rfl

@[simp] theorem print_format (l : Log) (e : LogEntry) : (l.print e).format = l.format := by
  unfold print
  split <;> rfl

@[simp] theorem record_verbosity (l : Log) (e : LogEntry) :
    (l.record e).verbosity = l.verbosity := by
  cases hmode : l.mode <;> simp [record, hmode, LogMode.prints, LogMode.keeps, keep]

@[simp] theorem record_format (l : Log) (e : LogEntry) : (l.record e).format = l.format := by
  cases hmode : l.mode <;> simp [record, hmode, LogMode.prints, LogMode.keeps, keep]

theorem recordAll_settings (l : Log) (entries : List LogEntry) :
    (l.recordAll entries).verbosity = l.verbosity ∧ (l.recordAll entries).format = l.format := by
  induction entries generalizing l with
  | nil => exact ⟨rfl, rfl⟩
  | cons e rest ih => simpa [recordAll] using ih (l.record e)

/-! ## Lines -/

theorem printed_print (l : Log) (e : LogEntry) :
    (l.print e).printed.toList = l.printed.toList ++ lines l.verbosity l.format [e] := by
  unfold print
  by_cases hvisible : e.level.level ≤ l.verbosity.level
  · rw [if_pos hvisible]
    simp [lines, hvisible, lineOf]
  · rw [if_neg hvisible]
    simp [lines, hvisible]

/-- Entries that are printed one after the other. -/
theorem printed_printAll (l : Log) (entries : List LogEntry) :
    (entries.foldl print l).printed.toList =
      l.printed.toList ++ lines l.verbosity l.format entries := by
  induction entries generalizing l with
  | nil => simp [lines]
  | cons e rest ih =>
    calc ((e :: rest).foldl print l).printed.toList
        = (l.print e).printed.toList ++ lines l.verbosity l.format rest := by
          rw [List.foldl_cons, ih, print_verbosity, print_format]
      _ = l.printed.toList ++ lines l.verbosity l.format ([e] ++ rest) := by
          rw [printed_print, List.append_assoc, ← lines_append]

theorem printed_record (l : Log) (e : LogEntry) :
    (l.record e).printed.toList =
      l.printed.toList ++ if l.mode.prints then lines l.verbosity l.format [e] else [] := by
  cases hmode : l.mode <;>
    simp [record, hmode, LogMode.prints, LogMode.keeps, keep, printed_print]

/-- What is printed of entries as they come. -/
theorem printed_recordAll (l : Log) (entries : List LogEntry) :
    (l.recordAll entries).printed.toList =
      l.printed.toList ++ if l.mode.prints then lines l.verbosity l.format entries else [] := by
  induction entries generalizing l with
  | nil => simp [recordAll, lines]
  | cons e rest ih =>
    calc (l.recordAll (e :: rest)).printed.toList
        = ((l.record e).recordAll rest).printed.toList := rfl
      _ = (l.record e).printed.toList ++
            if l.mode.prints then lines l.verbosity l.format rest else [] := by
          rw [ih, record_mode, record_verbosity, record_format]
      _ = l.printed.toList ++
            if l.mode.prints then lines l.verbosity l.format ([e] ++ rest) else [] := by
          rw [printed_record, lines_append]
          split <;> simp

/-- A flush prints what was kept, whether it was printed before or not. -/
theorem printed_flush (l : Log) :
    l.flush.printed.toList = l.printed.toList ++ lines l.verbosity l.format l.kept.toList := by
  unfold flush clear
  rw [← Array.foldl_toList]
  exact printed_printAll l l.kept.toList

/-! ## As they come, and when the log is flushed -/

/-- Let entries come to a fresh log and flush it. Unless the log both prints and keeps, the lines
that its verbosity lets through are printed once each, in the order in which they came, be it as
they came or by the flush. If it does both, they are printed as they come, and all once more by the
flush. -/
theorem flush_prints (v : Verbosity) (f : LogFormat) (m : LogMode) (entries : List LogEntry) :
    let fresh : Log := { verbosity := v, format := f, mode := m }
    (fresh.recordAll entries).printed.toList = (if m.prints then lines v f entries else []) ∧
      (fresh.recordAll entries).flush.printed.toList =
        if m = .both then lines v f entries ++ lines v f entries else lines v f entries := by
  intro fresh
  have hcome : (fresh.recordAll entries).printed.toList =
      if m.prints then lines v f entries else [] := fresh.printed_recordAll entries
  have hkept : (fresh.recordAll entries).kept.toList = if m.keeps then entries else [] :=
    fresh.kept_recordAll entries
  obtain ⟨hverbosity, hformat⟩ := fresh.recordAll_settings entries
  refine ⟨hcome, ?_⟩
  rw [printed_flush, hverbosity, hformat, hcome, hkept]
  cases m <;> simp [LogMode.prints, LogMode.keeps, lines, fresh]

/-- A message that was printed and kept is printed again. -/
theorem flush_not_always_once :
    ¬∀ (v : Verbosity) (f : LogFormat) (m : LogMode) (entries : List LogEntry),
      (({ verbosity := v, format := f, mode := m } : Log).recordAll entries).flush.printed.toList =
        lines v f entries := by
  intro h
  have hlength := congrArg List.length (h .normal .text .both [.ofMessage "A"])
  have htwice : (({ mode := .both } : Log).recordAll
      [.ofMessage "A"]).flush.printed.toList.length = 2 := rfl
  have honce : (lines .normal .text [.ofMessage "A"]).length = 1 := rfl
  omega

end Log

end Doomtown
