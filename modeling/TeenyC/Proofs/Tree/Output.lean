import TeenyC.Proofs.Tree.Draft

/-
  The C text of a tree under construction, and the reports on
  it, up to the last line that has ended. Both only grow.

  Key definitions include:
    * `Tree.Draft.text`
    * `Tree.Draft.events`
-/

namespace TeenyC

namespace Tree

/- The C text up to and with the line that opens a block. -/
def Frame.text (frame : Frame) : String :=
  frame.before.text ++
    codeLine
      (frame.kind.head ++ frame.condition.text ++ ")\x7b")

/- The reports up to and on the line that opens a block. -/
def Frame.events (frame : Frame) : List Event :=
  frame.before.events ++
    .statement (.keyword frame.kind.opener) ::
      frame.condition.events ++ [.newline]

namespace Draft

/- The C text of what a draft holds, up to the margin. -/
def text (draft : Draft) : String :=
  String.join (draft.frames.reverse.map Frame.text) ++
    draft.done.text

/- The reports on what a draft holds, up to the margin. -/
def events (draft : Draft) : List Event :=
  draft.frames.reverse.flatMap Frame.events ++ draft.done.events

/- The text grows by that of a simple statement. -/
theorem text_add
    (draft : Draft)
    (last : Simple) :
    (draft.add last).text = draft.text ++ last.text := by
  simp [text, add, Statements.text_append, Statements.text,
    String.append_assoc]

/- The reports grow by those on a simple statement. -/
theorem events_add
    (draft : Draft)
    (last : Simple) :
    (draft.add last).events = draft.events ++ last.events := by
  simp [events, add, Statements.events_append,
    Statements.events]

/- The text grows by the line that opens a block. -/
theorem text_push
    (draft : Draft)
    (kind : Block)
    (condition : Comparison) :
    (draft.push kind condition).text =
      draft.text ++
        codeLine (kind.head ++ condition.text ++ ")\x7b") := by
  simp [text, push, Statements.text, Frame.text,
    String.append_assoc]

/- The reports grow by those on the line that opens a block. -/
theorem events_push
    (draft : Draft)
    (kind : Block)
    (condition : Comparison) :
    (draft.push kind condition).events =
      draft.events ++
        .statement (.keyword kind.opener) ::
          condition.events ++ [.newline] := by
  simp [events, push, Statements.events, Frame.events]

/- The text grows by the line that closes a block. -/
theorem text_pop
    {draft : Draft}
    {frame : Frame}
    {outer : List Frame}
    (hFrames : draft.frames = frame :: outer) :
    draft.pop.text = draft.text ++ codeLine "\x7d" := by
  simp [text, pop, hFrames, Statements.text_append,
    Statements.text, Frame.text, String.append_assoc]

/- The reports grow by the one on the end of the line. -/
theorem events_pop
    {draft : Draft}
    {frame : Frame}
    {outer : List Frame}
    (hFrames : draft.frames = frame :: outer) :
    draft.pop.events = draft.events ++ [.newline] := by
  simp [events, pop, hFrames, Statements.events_append,
    Statements.events, Frame.events]

end Draft

end Tree

end TeenyC
