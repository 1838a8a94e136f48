import CalxMill.Cli.Session

/-!
# Replaying a session

A session in the order of its files, where each command comes behind the ones
whose files it reads, can be run again: every command says and writes what it
did before, and no file changes.
-/

namespace CalxMill.Cli

open Lib Rust Nvidia World

/-- The command does not read or write what `b` writes. -/
def Precedes (a b : List Str) : Prop :=
  ∀ path, outFile b = some path → ¬ Reaches (inputs a) path ∧ outFile a ≠ some path

/-- No command reads its own file, or one that is written behind it, and no
file is written twice. -/
structure InOrder (argvs : List (List Str)) : Prop where
  own : ∀ a ∈ argvs, ∀ path, outFile a = some path → ¬ Reaches (inputs a) path
  behind : argvs.Pairwise Precedes

theorem agreeOn_writeAll (w : World) {words : List Str} {written : List (Str × Str)}
    (h : ∀ path ∈ written.map (·.1), ¬ Reaches words path) :
    AgreeOn (Reaches words) (w.writeAll written) w := by
  induction written generalizing w with
  | nil => exact AgreeOn.refl w
  | cons f written ih =>
      rw [List.map_cons, List.forall_mem_cons] at h
      exact (ih (w.write f.1 f.2) h.2).trans (agreeOn_write w h.1 f.2)

/-- The files of a session are among those its commands are told to write. -/
theorem mem_written_session {w : World} {argvs : List (List Str)} {path : Str}
    (h : path ∈ ((session w argvs).flatMap Outcome.written).map (·.1)) :
    ∃ a ∈ argvs, outFile a = some path := by
  rw [written_session, List.mem_flatMap] at h
  obtain ⟨⟨a, out⟩, hrun, hpath⟩ := h
  refine ⟨a, (List.of_mem_zip hrun).1, ?_⟩
  rw [writtenBy] at hpath
  split at hpath
  · exact Option.mem_toList.mp hpath
  · cases hpath

/-- What a command wrote is there at the end of the session. -/
theorem settled_afterSession {w : World} {a : List Str} {argvs : List (List Str)}
    (hbehind : ∀ b ∈ argvs, Precedes a b) :
    (afterSession w (a :: argvs)).writeAll (invoke w a).written = afterSession w (a :: argvs) := by
  have hafter : afterSession w (a :: argvs) = afterSession (invoke w a).world argvs := rfl
  rcases invoke_files w a with ⟨-, hwritten, -⟩ | ⟨path, text, hout, -, -, hwritten, hworld⟩
  · rw [hwritten]
    rfl
  · have hpath :
        path ∉ ((session (w.write path text) argvs).flatMap Outcome.written).map (·.1) := by
      intro hmem
      obtain ⟨b, hb, hout'⟩ := mem_written_session hmem
      exact (hbehind b hb path hout').2 hout
    rw [hwritten, hafter, hworld, afterSession_eq]
    exact (settled_write w path text).writeAll hpath

/-- A session in order says and writes the same when it is run again, and
leaves every file as it is. -/
theorem session_replay (w : World) {argvs : List (List Str)} (h : InOrder argvs) :
    (session (afterSession w argvs) argvs).map Outcome.visible =
        (session w argvs).map Outcome.visible ∧
      afterSession (afterSession w argvs) argvs = afterSession w argvs := by
  induction argvs generalizing w with
  | nil => exact ⟨rfl, rfl⟩
  | cons a argvs ih =>
      obtain ⟨hbehind, hrest⟩ := List.pairwise_cons.mp h.behind
      have hinputs : ∀ path ∈ ((session w (a :: argvs)).flatMap Outcome.written).map (·.1),
          ¬ Reaches (inputs a) path := by
        intro path hpath
        obtain ⟨b, hb, hout⟩ := mem_written_session hpath
        rcases List.mem_cons.mp hb with rfl | hb
        · exact h.own b List.mem_cons_self path hout
        · exact (hbehind b hb path hout).1
      have hsame : (invoke (afterSession w (a :: argvs)) a).visible = (invoke w a).visible := by
        rw [afterSession_eq]
        exact invoke_agree (agreeOn_writeAll w hinputs)
      have hwritten : (invoke (afterSession w (a :: argvs)) a).written = (invoke w a).written :=
        congrArg (fun v ↦ v.2.2.1) hsame
      have hsettled : (invoke (afterSession w (a :: argvs)) a).world =
          afterSession w (a :: argvs) := by
        rw [invoke_world, hwritten, settled_afterSession hbehind]
      have hafter : afterSession w (a :: argvs) = afterSession (invoke w a).world argvs := rfl
      have horder : InOrder argvs := ⟨fun b hb ↦ h.own b (List.mem_cons_of_mem a hb), hrest⟩
      obtain ⟨hvisible, hworld⟩ := ih (w := (invoke w a).world) horder
      constructor
      · rw [session, List.map_cons, hsame, hsettled, hafter, hvisible, session, List.map_cons]
      · have hstep : afterSession (afterSession w (a :: argvs)) (a :: argvs) =
          afterSession (invoke (afterSession w (a :: argvs)) a).world argvs := rfl
        rw [hstep, hsettled, hafter, hworld]

/-- A census, and the projection of its file. -/
def censusAndProject : List (List Str) :=
  [[lit "census", lit "a.sass", lit "-o", lit "a.csv"],
    [lit "project", lit "a.csv", lit "--table", lit "t.csv"]]

theorem inOrder_censusAndProject : InOrder censusAndProject := by
  have hout : outFile [lit "census", lit "a.sass", lit "-o", lit "a.csv"] = some (lit "a.csv") := by
    decide
  have hnone : outFile [lit "project", lit "a.csv", lit "--table", lit "t.csv"] = none := by
    decide +kernel
  constructor
  · intro a ha path hpath
    rcases List.mem_pair.mp ha with ha | ha
    · rw [ha] at hpath ⊢
      obtain rfl := Option.some.inj (hout.symm.trans hpath)
      decide
    · rw [ha, hnone] at hpath
      cases hpath
  · rw [censusAndProject, List.pairwise_pair]
    intro path hpath
    rw [hnone] at hpath
    cases hpath

theorem session_replay_censusAndProject :
    (session ratedLoops censusAndProject).map Outcome.code = [0, 0] ∧
      (session (afterSession ratedLoops censusAndProject) censusAndProject).map Outcome.visible =
        (session ratedLoops censusAndProject).map Outcome.visible ∧
      afterSession (afterSession ratedLoops censusAndProject) censusAndProject =
        afterSession ratedLoops censusAndProject :=
  ⟨by decide +kernel, session_replay ratedLoops inOrder_censusAndProject⟩

end CalxMill.Cli
