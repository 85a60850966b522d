import NodeInventory.Command.Basic

/-!
# Commands that answer from a list

A program without an answer in the list is not installed.
-/

namespace NodeInventory.Command

namespace Output

/-- A clean run that writes to standard output only. -/
def ofStdout (text : String) : Output := ⟨.success, some 0, text, ""⟩

/-- A clean run that writes to standard error only. -/
def ofStderr (text : String) : Output := ⟨.success, some 0, "", text⟩

def failure (code : Int) (text : String) : Output := ⟨.failed, some code, "", text⟩

end Output

/-- Answers by program; of two for one program the later counts. -/
abbrev Replies := List (String × Reply)

namespace Replies

def reply? (replies : Replies) (program : String) : Option Reply :=
  (replies.reverse.find? fun entry => entry.1 = program).map (·.2)

def set (replies : Replies) (program : String) (reply : Reply) : Replies :=
  replies ++ [(program, reply)]

def remove (replies : Replies) (program : String) : Replies :=
  replies.filter fun entry => entry.1 ≠ program

def runner (replies : Replies) : Runner := fun _ invocation =>
  (replies.reply? invocation.program).getD ⟨.error (.notInstalled invocation.program), 0⟩

end Replies

end NodeInventory.Command
