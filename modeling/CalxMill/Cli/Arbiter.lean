import CalxMill.Cli.ExitCodes
import CalxMill.Cli.Replay

/-!
# The arbiter in a session

The `gate` command is the arbiter on the files of the moment.  In a session its
verdict is the one on the files of the start, as long as no command in front of
it writes the registry.
-/

namespace CalxMill.Cli

open Lib Rust Nvidia World

theorem exec_forM_println (ls : List Str) (c : Console) : (ls.forM println).exec c =
    (.ok (), { c with stdout := c.stdout ++ ls.flatMap (· ++ lit "\n") }) := by
  induction ls generalizing c with
  | nil => exact Prod.ext rfl (by rw [List.flatMap_nil, List.append_nil]; rfl)
  | cons line ls ih =>
      have hcons : (line :: ls).forM println = println line >>= fun _ ↦ ls.forM println := rfl
      rw [hcons, println, exec_print_bind, ih, List.flatMap_cons, List.append_assoc]

theorem exec_forM_eprintln (ls : List Str) (c : Console) : (ls.forM eprintln).exec c =
    (.ok (), { c with stderr := c.stderr ++ ls.flatMap (· ++ lit "\n") }) := by
  induction ls generalizing c with
  | nil => exact Prod.ext rfl (by rw [List.flatMap_nil, List.append_nil]; rfl)
  | cons line ls ih =>
      have hcons : (line :: ls).forM eprintln = eprintln line >>= fun _ ↦ ls.forM eprintln := rfl
      have hline : (eprintln line).exec c =
          (.ok (), { c with stderr := c.stderr ++ (line ++ lit "\n") }) := rfl
      rw [hcons, Prog.exec_bind_ok hline, ih, List.flatMap_cons, List.append_assoc]

theorem exec_gate (w : World) (rest : List Str) : (runGate rest).exec (.start w) =
    match Gate.run w.read rest with
    | .ok out => (.ok out.code, ⟨w, [], out.stdout.flatMap (· ++ lit "\n"),
        out.stderr.flatMap (· ++ lit "\n")⟩)
    | .error e => (.error e, .start w) := by
  have hfiles : (files fun w ↦ Gate.run w.read rest).exec (.start w) =
      (Gate.run w.read rest, .start w) := rfl
  rw [runGate, Prog.exec_bind, hfiles]
  cases Gate.run w.read rest with
  | error e => rfl
  | ok out =>
      dsimp only
      rw [Prog.exec_bind_ok (exec_forM_println _ _), Prog.exec_bind_ok (exec_forM_eprintln _ _)]
      rfl

/-- The command says what the arbiter says, exits with its code, and leaves the
files alone. -/
theorem invoke_gate (w : World) (rest : List Str) :
    let o := invoke w (lit "gate" :: rest)
    let g := Gate.gate w.read rest
    o.code = g.code ∧ o.console.stdout = g.stdout.flatMap (· ++ lit "\n") ∧
      o.console.stderr = g.stderr.flatMap (· ++ lit "\n") ∧ o.console.world = w := by
  intro o g
  have hrun : run (lit "gate" :: rest) = runGate rest := rfl
  have hexec := exec_gate w rest
  simp only [o, g, invoke, hrun, hexec, Gate.gate]
  cases hgate : Gate.run w.read rest with
  | ok out =>
      have hcode := gate_run_eq_ok hgate
      simp only [List.mem_cons, List.not_mem_nil, or_false] at hcode
      refine ⟨Nat.mod_eq_of_lt ?_, rfl, rfl, rfl⟩
      omega
  | error e =>
      cases e with
      | err msg => exact ⟨rfl, rfl, by simp [Console.start], rfl⟩
      | panic msg => exact absurd hgate (gate_run_safe w.read rest msg)

theorem session_append (w : World) (before after : List (List Str)) :
    session w (before ++ after) = session w before ++ session (afterSession w before) after := by
  induction before generalizing w with
  | nil => rfl
  | cons argv before ih =>
      rw [List.cons_append, session, session, ih, List.cons_append]
      rfl

theorem length_session (w : World) (argvs : List (List Str)) :
    (session w argvs).length = argvs.length := by
  induction argvs generalizing w with
  | nil => rfl
  | cons argv argvs ih => rw [session, List.length_cons, ih, List.length_cons]

/-- A verdict in a session is the arbiter's on the files of the start, when no
command in front of it writes a file that its words name. -/
theorem session_gate (w : World) {before after : List (List Str)} {rest : List Str}
    (h : ∀ b ∈ before, ∀ path, outFile b = some path →
      ¬ Reaches (inputs (lit "gate" :: rest)) path) :
    ∃ o, (session w (before ++ (lit "gate" :: rest) :: after))[before.length]? = some o ∧
      o.code = (Gate.gate w.read rest).code ∧
      o.console.stdout = (Gate.gate w.read rest).stdout.flatMap (· ++ lit "\n") ∧
      o.console.stderr = (Gate.gate w.read rest).stderr.flatMap (· ++ lit "\n") := by
  refine ⟨invoke (afterSession w before) (lit "gate" :: rest), ?_, ?_⟩
  · rw [session_append, List.getElem?_append_right (length_session w before).le, length_session,
      Nat.sub_self]
    rfl
  · have hagree : AgreeOn (Reaches (inputs (lit "gate" :: rest))) (afterSession w before) w := by
      rw [afterSession_eq]
      apply agreeOn_writeAll
      intro path hpath
      obtain ⟨b, hb, hout⟩ := mem_written_session hpath
      exact h b hb path hout
    have hvisible := invoke_agree hagree
    obtain ⟨hcode, hout, herr, -⟩ := invoke_gate w rest
    rw [← hcode, ← hout, ← herr]
    simp only [Outcome.visible, Prod.mk.injEq] at hvisible
    exact ⟨hvisible.2.2.2, hvisible.1, hvisible.2.1⟩

/-- `twoLoops` with a registry of one anchor. -/
def anchoredLoops : World :=
  twoLoops.write "r.csv" "id,measured,tol,tol_kind,units,at,domain\nx,1,0,abs,us,k=1,k=1..2\n"

def registryClaim : List Str :=
  ["--value", "1", "--registry", "r.csv", "--anchor-id", "x", "--at", "k=1", "--units", "us"]

/-- A claim that the registry certifies, behind two censuses. -/
theorem session_gate_twoCensuses :
    ∃ o, (session anchoredLoops (twoCensuses ++ [lit "gate" :: registryClaim]))[2]? = some o ∧
      o.code = 0 := by
  have hreads : inputs (lit "gate" :: registryClaim) = [lit "r.csv"] := by decide +kernel
  have hkeeps : ∀ b ∈ twoCensuses, ∀ path, outFile b = some path →
      ¬ Reaches (inputs (lit "gate" :: registryClaim)) path := by
    have hout : ∀ b ∈ twoCensuses, ∀ path ∈ outFile b, ¬ Reaches [lit "r.csv"] path := by
      decide +kernel
    rw [hreads]
    exact hout
  obtain ⟨o, hget, hcode, -⟩ := @session_gate anchoredLoops twoCensuses [] _ hkeeps
  exact ⟨o, hget, hcode.trans (by decide +kernel)⟩

end CalxMill.Cli
