import DiceRooms.Deployment.Action
import DiceRooms.Feed.Row
import DiceRooms.Hub.Measurement
import DiceRooms.Proofs.Broker.Interleaving
import DiceRooms.Proofs.Deployment.Accounting
import DiceRooms.Proofs.Deployment.Bare
import DiceRooms.Proofs.Deployment.Calls
import DiceRooms.Proofs.Deployment.Census
import DiceRooms.Proofs.Deployment.Holdings
import DiceRooms.Proofs.Deployment.Independence
import DiceRooms.Proofs.Deployment.Indifference
import DiceRooms.Proofs.Deployment.Measuring
import DiceRooms.Proofs.Deployment.Recording
import DiceRooms.Proofs.Deployment.Replicas
import DiceRooms.Proofs.Deployment.Running
import DiceRooms.Proofs.Deployment.Serials
import DiceRooms.Proofs.Deployment.Stopping
import DiceRooms.Proofs.Deployment.Streams
import DiceRooms.Proofs.Deployment.Traffic
import DiceRooms.Proofs.Deployment.Unreadable
import DiceRooms.Proofs.Deployment.Viewing
import DiceRooms.Proofs.Feed.Row
import DiceRooms.Proofs.Settings
import DiceRooms.Proofs.Time.Reach
import DiceRooms.Proofs.Wire.Acceptance
import DiceRooms.Proofs.Wire.Renewal
import DiceRooms.Proofs.Wire.UnknownTypes
import DiceRooms.Roller
import DiceRooms.Scenario.Run
import DiceRooms.Settings
import DiceRooms.Text.Lossy
import DiceRooms.Wire.Message
import DiceRooms.Proofs.Settings.Environment
import DiceRooms.Proofs.Time.Days
import DiceRooms.Proofs.Time.Stamp
import DiceRooms.Proofs.Wire.Times
