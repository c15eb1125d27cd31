import Stepwise.Proofs.Simulation

/-!
# What a run of the plan leaves of the record

Where a run of the plan cannot be begun, for the list, the models, the nodes or the input,
everything is left as it was. Once it has begun the record has the checked input. When the
end is reached, and not before, both sections are replaced together by what the last state
of the channels holds, and the output is checked after that.

A run that stops before does not replace the output, however many nodes were run. But the
channels of the first state still hold mappings of the record, and collecting from them
writes the fields whose names contain the separator into such mappings. So only where no
field's name contains it is the output what it was before.

A body that raises stops the run, in a node and while a route is resolved alike.
-/

namespace Stepwise

variable {World : Type}

namespace Flow

end Flow

namespace Workflow

end Workflow
end Stepwise
