import GameShip.Config
import GameShip.Proofs.Cipher.Stream
import GameShip.Proofs.Frame.Buffer
import GameShip.Proofs.Frame.Delivery
import GameShip.Proofs.Movement.Action
import GameShip.Proofs.Movement.Complete
import GameShip.Proofs.Movement.Nearest
import GameShip.Proofs.Movement.Packed
import GameShip.Proofs.Object.Capture
import GameShip.Proofs.Object.History
import GameShip.Proofs.Object.Loading
import GameShip.Proofs.Packet.Spawn
import GameShip.Proofs.Session.Dumping
import GameShip.Proofs.Session.Outbound
import GameShip.Proofs.Session.Reading
import GameShip.Proofs.Ship.Announcement
import GameShip.Proofs.Ship.Arrival
import GameShip.Proofs.Ship.Blocking
import GameShip.Proofs.Ship.Chunking
import GameShip.Proofs.Ship.Closing
import GameShip.Proofs.Ship.Commuting
import GameShip.Proofs.Ship.Draining
import GameShip.Proofs.Ship.Ending
import GameShip.Proofs.Ship.Hearing
import GameShip.Proofs.Ship.Moving
import GameShip.Proofs.Ship.Replay
import GameShip.Proofs.Ship.Secrecy
import GameShip.Proofs.Ship.Tracking
import GameShip.Proofs.Wire.Cursor
import GameShip.Proofs.Wire.Script
import GameShip.Proofs.World.Census
import GameShip.Proofs.World.Party
import GameShip.Ship.Operator
import GameShip.Proofs.Disk.Reading
