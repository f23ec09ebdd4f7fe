import TableExport.Markup.Reference

/-!
# The text of an element

The text of an element is what stands in its text runs `t`, and when it is plain, all that stands in
it. What stands in a phonetic run `rPh` is left out.

* `Markup.readText` reads the text of an element that was just opened, and gives the events after
  it. `readText_length` says that it only ever goes forward.
-/

namespace TableExport.Markup

/-- Which part of an element the reader is in. -/
structure TextPlace where
  inRun : Bool
  inPhonetic : Bool

/-- Whether text is shown. -/
def TextPlace.isShown (place : TextPlace) : Bool := place.inRun && !place.inPhonetic

/-- The place after an event. -/
def TextPlace.after (place : TextPlace) (plain : Bool) (event : Event) : TextPlace :=
  if event.opens "rPh" then { place with inPhonetic := true }
  else if event.closes "rPh" then { place with inPhonetic := false }
  else if event.opens "t" && !place.inPhonetic then { place with inRun := true }
  else if event.closes "t" && place.inRun then { place with inRun := plain }
  else place

/-- The text that an event shows. -/
def shownText : Event → Except MarkupError String
  | .text (some content) => .ok content
  | .reference (some name) => (referenced name).map String.singleton
  | .text none | .reference none => .error .encoding
  | .fault => .error .malformed
  | .start _ | .stop _ => .ok ""

/-- The text that an event adds at a place. -/
def TextPlace.textOf (place : TextPlace) (event : Event) : Except MarkupError String :=
  match event with
  | .fault => .error .malformed
  | event => if place.isShown then shownText event else .ok ""

/-- Reads the text up to the end of an element, from a place in it. Without an end, all events are
read. -/
def readTextFrom (stopAt : String) (plain : Bool) (place : TextPlace) :
    List Event → Except MarkupError (String × List Event)
  | [] => .ok ("", [])
  | event :: rest =>
    if event.closes stopAt then .ok ("", rest)
    else do
      let text ← place.textOf event
      let (more, rest) ← readTextFrom stopAt plain (place.after plain event) rest
      return (text ++ more, rest)

/-- Reads the text of an element that was just opened. -/
def readText (element : String) (plain : Bool) (events : List Event) :
    Except MarkupError (String × List Event) :=
  readTextFrom element plain ⟨plain, false⟩ events

/-- What follows an element is no longer than what it started in. -/
theorem readTextFrom_length {stopAt : String} {plain : Bool} {place : TextPlace}
    {events : List Event} {text : String} {rest : List Event}
    (h : readTextFrom stopAt plain place events = .ok (text, rest)) :
    rest.length ≤ events.length := by
  induction events generalizing place text with
  | nil => simp_all [readTextFrom]
  | cons event events ih =>
    simp only [readTextFrom] at h
    split at h
    · simp_all
    · cases hText : place.textOf event with
      | error cause => simp [hText, bind, Except.bind] at h
      | ok first =>
        simp only [hText, bind, Except.bind] at h
        cases hRest : readTextFrom stopAt plain (place.after plain event) events with
        | error cause => simp [hRest] at h
        | ok found =>
          obtain ⟨more, last⟩ := found
          simp only [hRest, pure, Except.pure, Except.ok.injEq, Prod.mk.injEq] at h
          obtain ⟨-, rfl⟩ := h
          have := ih hRest
          simp only [List.length_cons]
          omega

/-- Reading the text of an element leaves no more events than there were. -/
theorem readText_length {element : String} {plain : Bool} {events : List Event} {text : String}
    {rest : List Event} (h : readText element plain events = .ok (text, rest)) :
    rest.length ≤ events.length := readTextFrom_length h

end TableExport.Markup
